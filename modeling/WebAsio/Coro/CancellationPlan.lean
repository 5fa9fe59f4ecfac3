import WebAsio.Coro.CancellationChain

set_option autoImplicit false

/-! # What cancellation is for

The plan of the chains knows nothing of slots and cells. A coroutine has the filters that it asked
for last, and what it recorded since; an emission is a message to the chain whose root installed a
slot of the signal. Every run computes the plan of its requests, and what is emitted while a
coroutine waits for an operation comes to the operation as the plan says. -/

namespace WebAsio.Coro.Cancellation

open Asio.Signals Asio.Signals.Memory Relay Transition

/-- What the coroutines have asked for, each chain with the innermost first. -/
@[ext] structure Plan where
  roots : Nat
  signal : Nat → Option Nat
  posts : Nat → List (Option (Post CancellationType))

namespace Plan

def empty : Plan := ⟨0, fun _ => none, fun _ => []⟩

/-- The chain from the root inwards. -/
def row (p : Plan) (i : Nat) : List (Option (Post CancellationType)) := (p.posts i).reverse

def put (p : Plan) (i : Nat) (signal : Option Nat) (posts : List (Option (Post CancellationType))) :
    Plan :=
  { p with signal := Function.update p.signal i signal, posts := Function.update p.posts i posts }

def next (p : Plan) : Action → Plan
  | .start => { p.put p.roots none [none] with roots := p.roots + 1 }
  | .setCancellationSlot i g => p.put i (some g) [none]
  | .resetCancellationSlot i g f => p.put i (some g) [some ⟨f, 0⟩]
  | .resetCancellationState i f =>
    p.put i (p.signal i) (((p.signal i).map fun _ => ⟨f, 0⟩) :: (p.posts i).tail)
  | .awaitPromise i => p.put i (p.signal i) (none :: p.posts i)
  | .finish i =>
    let posts := (p.posts i).tail
    p.put i (if posts.isEmpty then none else p.signal i) posts
  | .initiate _ | .complete .. => p
  | .emit g t =>
    { p with posts := fun i =>
        if p.signal i = some g then (receive 0 (p.row i) t).reverse else p.posts i }

/-- The plan after some requests. -/
def after (as : List Action) : Plan := as.foldl next empty

/-- What a coroutine reads from `co_await cancelled`. -/
def reading (post : Option (Post CancellationType)) : CancellationType :=
  (post.map Post.record).getD 0

end Plan

namespace State

/-- The plan that the frames and the memory stand for. -/
def plan (s : State) : Plan := ⟨s.roots, s.signalOf, fun i => (s.frames i).map s.post⟩

/-- What the coroutines of a chain read from `co_await cancelled`, from the root inwards. -/
def readings (s : State) (i : Nat) : List CancellationType :=
  (s.frames i).reverse.map s.cancelled

theorem plan_row (s : State) (i : Nat) : s.plan.row i = s.row i := by
  simp [plan, Plan.row, row]

theorem readings_eq (s : State) (i : Nat) : s.readings i = (s.row i).map Plan.reading := by
  unfold readings row
  rw [List.map_map]
  refine List.map_congr_left fun fr _ => ?_
  unfold cancelled Memory.cancelled
  cases hst : fr.cancellationState with
  | none => simp [post, Plan.reading, hst]
  | some k => cases hk : s.memory.impl k <;> simp [post, Plan.reading, Memory.post, hst, hk]

end State

variable {s s' : State} {i : Nat}

/-! ## One step -/

/-- A coroutine that does not ask for a new state keeps the one it has. -/
theorem Keeps.post (h : Sound s) (k : Keeps s s') {fr : Frame} (hfr : fr ∈ s.frames i)
    (hfr' : fr ∈ s'.frames i) : s'.post fr = s.post fr := by
  unfold State.post
  cases hst : fr.cancellationState with
  | none => rfl
  | some c =>
      obtain ⟨d, -, hcell⟩ := (h.chain i).holds fr hfr c hst
      obtain ⟨d', -, hcell'⟩ := (k.sound.chain i).holds fr hfr' c hst
      have hlt := (h.wf.holds hcell).2.2.1
      have hsome := (k.sound.wf.holds hcell').2.2.2
      rcases k.impl c hlt with himpl | hnone
      · simp [Memory.post, himpl]
      · rw [hnone] at hsome
        cases hsome

theorem Keeps.posts (h : Sound s) (k : Keeps s s') {fs : List Frame}
    (hfs : ∀ fr ∈ fs, fr ∈ s.frames i) (hfs' : ∀ fr ∈ fs, fr ∈ s'.frames i) :
    fs.map s'.post = fs.map s.post :=
  List.map_congr_left fun fr hfr => k.post h (hfs fr hfr) (hfs' fr hfr)

/-- A step of the chain `i` changes the plan there only. -/
theorem Keeps.plan (h : Sound s) (k : Keeps s s')
    (hframes : ∀ j, j ≠ i → s'.frames j = s.frames j) : s'.plan =
      { s.plan.put i (s'.signalOf i) ((s'.frames i).map s'.post) with roots := s'.roots } := by
  ext1
  · rfl
  · funext j
    by_cases hj : j = i
    · simp [State.plan, Plan.put, hj]
    · simp [State.plan, Plan.put, hj, State.signalOf, hframes j hj]
  · funext j
    by_cases hj : j = i
    · simp [State.plan, Plan.put, hj]
    · have hsame : s'.frames j = s.frames j := hframes j hj
      have hposts : (s.frames j).map s'.post = (s.frames j).map s.post :=
        k.posts h (fun _ hfr => hfr) fun _ hfr => hsame ▸ hfr
      simp [State.plan, Plan.put, hj, hsame, hposts]

/-- The innermost coroutine holds a new state, if the chain has a signal. -/
theorem Sound.post_construct (h : Sound s) {slot : Option Cell} {fs : List Frame}
    (hchain : Chain s.memory (⟨slot, none⟩ :: fs)) (f : Station CancellationType) :
    (s.memory.construct slot f).2.bind (s.memory.construct slot f).1.post =
      (signalOf (⟨slot, none⟩ :: fs)).map fun _ => ⟨f, 0⟩ := by
  rw [← hchain.signal h.wf ⟨slot, none⟩ (by simp)]
  cases hslot : slot with
  | none => rfl
  | some c =>
      rw [hslot] at hchain
      obtain ⟨hk, -, -, himpl, -⟩ :=
        h.wf.construct (hchain.live h.wf h.pos ⟨some c, none⟩ (by simp) c rfl) f
      simp [hk, Memory.post, himpl]

section Steps

/-- The signal of a chain does not depend on the states. -/
theorem signalOf_state (slot st st' : Option Cell) (fs : List Frame) :
    signalOf (⟨slot, st⟩ :: fs) = signalOf (⟨slot, st'⟩ :: fs) := by
  cases fs <;> simp [signalOf]

theorem Sound.plan_start (h : Sound s) : (s.next .start).plan = s.plan.next .start := by
  rw [h.start.plan h (i := s.roots) fun j hj => by simp [State.next, State.setFrames, hj]]
  simp [State.next, State.setFrames, State.signalOf, State.post, Plan.next, Plan.put, State.plan]

theorem Sound.plan_finish (h : Sound s) (hi : s.Runs i) :
    (s.next (.finish i)).plan = s.plan.next (.finish i) := by
  have k := h.finish hi
  rw [k.plan h (i := i) fun j hj => by simp [State.next, State.finish, State.setFrames, hj]]
  have hframes : (s.next (.finish i)).frames i = (s.frames i).tail := by
    simp [State.next, State.finish, State.setFrames]
  have hposts : (s.frames i).tail.map (s.next (.finish i)).post = (s.frames i).tail.map s.post :=
    k.posts h (fun _ hfr => List.mem_of_mem_tail hfr) fun _ hfr => hframes ▸ hfr
  have hsignal : (s.next (.finish i)).signalOf i =
      if (s.frames i).tail.isEmpty then none else s.signalOf i := by
    rw [State.signalOf, hframes]
    obtain ⟨fr, fs, hfs, -⟩ := h.innermost hi
    rw [State.signalOf, hfs]
    cases fs <;> simp
  have htail : (s.frames i).tail.isEmpty = ((s.frames i).map s.post).tail.isEmpty := by
    rw [← List.map_tail, List.isEmpty_map]
  rw [hframes, hposts, hsignal, htail, List.map_tail]
  rfl

theorem Sound.plan_awaitPromise (h : Sound s) (hi : s.Runs i) :
    (s.next (.awaitPromise i)).plan = s.plan.next (.awaitPromise i) := by
  have k := h.awaitPromise hi
  obtain ⟨fr, fs, hfs, -⟩ := h.innermost hi
  have hnext : s.next (.awaitPromise i) =
      s.setFrames i (⟨fr.getCancellationSlot, none⟩ :: fr :: fs) := by
    simp [State.next, State.awaitPromise, hfs]
  rw [k.plan h (i := i) fun j hj => by simp [hnext, State.setFrames, hj]]
  have hframes : (s.next (.awaitPromise i)).frames i =
      ⟨fr.getCancellationSlot, none⟩ :: s.frames i := by
    simp [hnext, State.setFrames, hfs]
  have hposts : (s.frames i).map (s.next (.awaitPromise i)).post = (s.frames i).map s.post :=
    k.posts h (fun _ hfr => hfr) fun _ hfr => by simp [hframes, hfr]
  have hsignal : (s.next (.awaitPromise i)).signalOf i = s.signalOf i := by
    simp [State.signalOf, hframes, hfs]
  rw [hsignal, hframes, List.map_cons, hposts]
  simp [Plan.next, State.plan, Plan.put, hnext, State.setFrames, State.post]

theorem Sound.plan_setCancellationSlot (h : Sound s) {g : Nat}
    (hi : s.Enabled (.setCancellationSlot i g)) :
    (s.next (.setCancellationSlot i g)).plan = s.plan.next (.setCancellationSlot i g) := by
  have k := h.setCancellationSlot hi
  obtain ⟨fr, hfs⟩ := List.length_eq_one_iff.mp hi.2.1
  have hnext : s.next (.setCancellationSlot i g) = s.setFrames i [⟨some ⟨g, 0⟩, none⟩] := by
    simp [State.next, State.setCancellationSlot, hfs]
  rw [k.plan h (i := i) fun j hj => by simp [hnext, State.setFrames, hj]]
  simp [hnext, State.setFrames, State.signalOf, State.post, Plan.next, Plan.put, State.plan]

theorem Sound.plan_resetCancellationSlot (h : Sound s) {g : Nat} {f : Station CancellationType}
    (hi : s.Enabled (.resetCancellationSlot i g f)) :
    (s.next (.resetCancellationSlot i g f)).plan = s.plan.next (.resetCancellationSlot i g f) := by
  have k := h.resetCancellationSlot hi
  obtain ⟨fr, hfs⟩ := List.length_eq_one_iff.mp hi.2.1
  have hnext : s.next (.resetCancellationSlot i g f) =
      { s with memory := (s.memory.construct (some ⟨g, 0⟩) f).1 }.setFrames i
        [⟨some ⟨g, 0⟩, (s.memory.construct (some ⟨g, 0⟩) f).2⟩] := by
    simp [State.next, State.resetCancellationSlot, State.resetCancellationState, State.setFrames,
      hfs]
  have hroot : Chain s.memory [⟨some ⟨g, 0⟩, none⟩] := .root (by simp) (by simp [Holds])
  have hpost := h.post_construct hroot f
  rw [k.plan h (i := i) fun j hj => by simp [hnext, State.setFrames, hj]]
  simp only [signalOf, List.getLast?_singleton, Option.bind_some, Option.map_some] at hpost
  simp [hnext, State.setFrames, State.signalOf, State.post, Plan.next, Plan.put, State.plan, hpost]

theorem Sound.plan_resetCancellationState (h : Sound s) (hi : s.Runs i)
    (f : Station CancellationType) :
    (s.next (.resetCancellationState i f)).plan = s.plan.next (.resetCancellationState i f) := by
  have k := h.resetCancellationState hi f
  obtain ⟨fr, fs, hfs, hchain, -⟩ := h.innermost hi
  have hnext : s.next (.resetCancellationState i f) =
      { s with memory := (s.memory.construct fr.cancellationSlot f).1 }.setFrames i
        (⟨fr.cancellationSlot, (s.memory.construct fr.cancellationSlot f).2⟩ :: fs) := by
    simp [State.next, State.resetCancellationState, hfs]
  rw [k.plan h (i := i) fun j hj => by simp [hnext, State.setFrames, hj]]
  have hframes : (s.next (.resetCancellationState i f)).frames i =
      ⟨fr.cancellationSlot, (s.memory.construct fr.cancellationSlot f).2⟩ :: fs := by
    simp [hnext, State.setFrames]
  have hposts : fs.map (s.next (.resetCancellationState i f)).post = fs.map s.post :=
    k.posts h (i := i) (fun _ hfr => by simp [hfs, hfr]) fun _ hfr => by simp [hframes, hfr]
  have hsame : signalOf (⟨fr.cancellationSlot, none⟩ :: fs) = s.signalOf i := by
    rw [signalOf_state _ none fr.cancellationState, State.signalOf, hfs]
    rfl
  have hsignal : (s.next (.resetCancellationState i f)).signalOf i = s.signalOf i := by
    rw [← hsame, State.signalOf, hframes]
    exact signalOf_state _ _ _ _
  have hhead : (s.next (.resetCancellationState i f)).post
      ⟨fr.cancellationSlot, (s.memory.construct fr.cancellationSlot f).2⟩ =
        (s.signalOf i).map fun _ => ⟨f, 0⟩ := by
    rw [← hsame, ← h.post_construct hchain.without_state f]
    simp [State.post, hnext, State.setFrames]
  rw [hsignal, hframes, List.map_cons, hposts, hhead]
  simp [Plan.next, State.plan, Plan.put, hnext, State.setFrames, hfs]

/-- An operation changes nothing that the coroutines asked for. -/
theorem Keeps.plan_same (h : Sound s) (k : Keeps s s') (hframes : s'.frames = s.frames)
    (hroots : s'.roots = s.roots) : s'.plan = s.plan := by
  ext1
  · exact hroots
  · funext i
    simp [State.plan, State.signalOf, hframes]
  · funext i
    have hsame : s'.frames i = s.frames i := congrFun hframes i
    have hposts : (s.frames i).map s'.post = (s.frames i).map s.post :=
      k.posts h (fun _ hfr => hfr) fun _ hfr => hsame ▸ hfr
    simpa [State.plan, hsame] using hposts

theorem Sound.plan_initiate (h : Sound s) (hi : s.Runs i) :
    (s.next (.initiate i)).plan = s.plan := by
  obtain ⟨fr, fs, hfs, -⟩ := h.innermost hi
  refine (h.initiate hi).plan_same h ?_ ?_ <;> simp [State.next, State.initiate, hfs]

theorem Sound.plan_complete (h : Sound s) (hi : (s.pending i).isSome = true) (clears : Bool) :
    (s.next (.complete i clears)).plan = s.plan :=
  (h.complete hi clears).plan_same h rfl rfl

/-- The chain is linked from the slot of the signal to the slot of its innermost coroutine. -/
theorem Sound.link (h : Sound s) {g : Nat} (hg : s.signalOf i = some g) : ∃ fr fs c,
    s.frames i = fr :: fs ∧ fr.getCancellationSlot = some c ∧
      Link s.memory ⟨g, 0⟩ ((s.frames i).reverse.filterMap Frame.cancellationState) c := by
  have hchain := h.chain i
  cases hfs : s.frames i with
  | nil => simp [State.signalOf, hfs] at hg
  | cons fr fs =>
      rw [hfs] at hchain
      rw [State.signalOf, hfs] at hg
      obtain ⟨c, hc, p⟩ := hchain.link (hchain.root_slot hg)
      exact ⟨fr, fs, c, rfl, hc, p⟩

/-- The states of a chain receive what is emitted on its signal. -/
theorem Sound.row_emit (h : Sound s) {g : Nat} (hg : s.signalOf i = some g)
    (t : CancellationType) : (s.next (.emit g t)).row i = receive 0 (s.row i) t := by
  obtain ⟨fr, fs, c, -, -, p⟩ := h.link hg
  have hlt := p.length_lt h.wf h.pos
  exact receive_keys (p.emit h.wf (by omega) t).1

/-- The states of the other chains do not. -/
theorem Sound.posts_emit (h : Sound s) {g : Nat} (hg : s.signalOf i ≠ some g)
    (t : CancellationType) {fr : Frame} (hfr : fr ∈ s.frames i) :
    (s.next (.emit g t)).post fr = s.post fr := by
  have e := h.wf.emit s.memory.count ⟨g, 0⟩ t
  unfold State.post
  cases hst : fr.cancellationState with
  | none => rfl
  | some k =>
      obtain ⟨c, hc, hcell⟩ := (h.chain i).holds fr hfr k hst
      have hsig := (h.chain i).signal h.wf fr hfr
      have hk : k.signal ≠ g := by
        rintro rfl
        rw [hc, Option.map_some, ← (h.wf.holds hcell).1] at hsig
        exact hg hsig.symm
      have himpl : (s.next (.emit g t)).memory.impl k = s.memory.impl k := e.other k hk
      simp [Memory.post, himpl]

theorem Sound.plan_emit (h : Sound s) (g : Nat) (t : CancellationType) :
    (s.next (.emit g t)).plan = s.plan.next (.emit g t) := by
  ext1
  · rfl
  · rfl
  · funext i
    change (s.frames i).map (s.next (.emit g t)).post =
      if s.signalOf i = some g then (receive 0 (s.plan.row i) t).reverse
      else (s.frames i).map s.post
    by_cases hg : s.signalOf i = some g
    · rw [if_pos hg, State.plan_row, ← h.row_emit hg, State.row, ← List.map_reverse,
        List.reverse_reverse]
      rfl
    · rw [if_neg hg]
      exact List.map_congr_left fun fr hfr => h.posts_emit hg t hfr

/-- **Every action of the coroutines is what the plan says.** -/
theorem Sound.plan_next (h : Sound s) {a : Action} (ha : s.Enabled a) :
    (s.next a).plan = s.plan.next a := by
  cases a with
  | start => exact h.plan_start
  | setCancellationSlot i g => exact h.plan_setCancellationSlot ha
  | resetCancellationSlot i g f => exact h.plan_resetCancellationSlot ha
  | resetCancellationState i f => exact h.plan_resetCancellationState ha f
  | awaitPromise i => exact h.plan_awaitPromise ha
  | finish i => exact h.plan_finish ha
  | initiate i => exact h.plan_initiate ha
  | complete i clears => exact h.plan_complete ha clears
  | emit g t => exact h.plan_emit g t

end Steps

/-! ## Runs -/

/-- A run computes the plan of its actions. -/
theorem plan_run {as : List Action} (hrun : Run machine .empty as s) : s.plan = Plan.after as := by
  suffices h : Sound s ∧ s.plan = Plan.after as from h.2
  refine hrun.history (I := fun l u => Sound u ∧ u.plan = Plan.after l)
    ⟨Sound.empty, rfl⟩ fun l u a ⟨h, hplan⟩ ha => ⟨h.step ha, ?_⟩
  rw [Plan.after, List.foldl_append, List.foldl_cons, List.foldl_nil, ← Plan.after, ← hplan]
  exact h.plan_next ha

/-- The operation gets what its chain hands on. -/
theorem Sound.delivered_emit (h : Sound s) {g o : Nat} (hg : s.signalOf i = some g)
    (ho : s.pending i = some o) (t : CancellationType) :
    (s.next (.emit g t)).delivered =
      s.delivered ++ ((relayed 0 (s.row i) t).map (o, ·)).toList := by
  obtain ⟨fr, fs, c, hfs, hc, p⟩ := h.link hg
  obtain ⟨fr', fs', hfs', hop⟩ := h.pending i o ho
  obtain rfl : fr = fr' := by
    rw [hfs] at hfs'
    exact (List.cons.inj hfs').1
  have hlt := p.length_lt h.wf h.pos
  have hcalls := (p.emit h.wf (n := s.memory.count) (by omega) t).2 o (hop c hc)
  have hrow : relayed 0 (s.row i) t =
      relayed 0 (((s.frames i).reverse.filterMap Frame.cancellationState).map s.memory.post) t :=
    relayed_keys _ t
  rw [hrow, ← hcalls]
  rfl

/-- A coroutine is a station of the row exactly when it holds a state. -/
theorem Sound.isSome_post (h : Sound s) {fr : Frame} (hfr : fr ∈ s.frames i) :
    (s.post fr).isSome = fr.cancellationState.isSome := by
  unfold State.post
  cases hst : fr.cancellationState with
  | none => rfl
  | some k =>
      obtain ⟨c, -, hcell⟩ := (h.chain i).holds fr hfr k hst
      simpa [Memory.post] using (h.wf.holds hcell).2.2.2

/-- **Cancellation reaches the innermost operation.** In every run in which the root of the chain
    `i` installed a slot of the signal `g`, and whose innermost coroutine waits for the operation
    `o`, an emission on `g` calls the cancellation handler of `o` once, with what the filters of the
    coroutines that hold a state make of the type one after the other, or calls no handler when one
    of them makes it none. The coroutines that it reaches then read what their input filter made of
    it, the others what they read before; and as long as the run goes on, what all coroutines read
    is what the plan of the requests says. -/
theorem emission_reaches_innermost {as : List Action} (hrun : Run machine .empty as s)
    {g o : Nat} (hg : (Plan.after as).signal i = some g) (ho : s.pending i = some o)
    (t : CancellationType) :
    let row := (Plan.after as).row i
    let s' := s.next (.emit g t)
    row.map Option.isSome = (s.frames i).reverse.map (·.cancellationState.isSome) ∧
    s'.delivered = s.delivered ++ ((relayed 0 row t).map (o, ·)).toList ∧
    s'.readings i = (receive 0 row t).map Plan.reading ∧
    (∀ j, j ≠ i → s'.readings j = s.readings j) ∧
    (s'.frames = s.frames ∧ s'.pending = s.pending) ∧
    ∀ bs u, Run machine s' bs u → u.memory.dangling = false ∧
      ∀ j, u.readings j = ((Plan.after (as ++ .emit g t :: bs)).row j).map Plan.reading := by
  have h : Sound s := Reachable.sound ⟨as, hrun⟩
  have hplan := plan_run hrun
  rw [← hplan] at hg ⊢
  have hsig : s.signalOf i = some g := hg
  simp only [State.plan_row]
  refine ⟨?_, h.delivered_emit hsig ho t, ?_, ?_, ⟨rfl, rfl⟩, ?_⟩
  · rw [State.row, List.map_map]
    exact List.map_congr_left fun fr hfr => h.isSome_post (i := i) (List.mem_reverse.mp hfr)
  · rw [State.readings_eq, h.row_emit hsig]
  · intro j hj
    have hother : s.signalOf j ≠ some g := h.apart i j g (Ne.symm hj) hsig
    rw [State.readings_eq, State.readings_eq]
    congr 1
    exact List.map_congr_left fun fr hfr => h.posts_emit hother t (List.mem_reverse.mp hfr)
  · intro bs u hu
    have hall : Run machine .empty (as ++ .emit g t :: bs) u := hrun.append (.cons trivial hu)
    refine ⟨(Reachable.sound ⟨_, hall⟩).safe, fun j => ?_⟩
    rw [State.readings_eq, ← State.plan_row, plan_run hall]

/-- The root is given a slot of the signal 7. Its first child leaves the handler of an operation
    there; the second one has a state of its own, and calls a third coroutine that waits. -/
def nestedChain : List Action :=
  [.start, .resetCancellationSlot 0 7 enableTerminal, .awaitPromise 0, .initiate 0,
    .complete 0 false, .finish 0, .awaitPromise 0, .resetCancellationState 0 enableTerminal,
    .awaitPromise 0, .initiate 0]

theorem emission_reaches_innermost_nested :
    let s := (machine.exec .empty nestedChain).next (.emit 7 .terminal)
    s.delivered = [(1, .terminal)] ∧ s.readings 0 = [.terminal, .terminal, 0] := by
  have hrun : Run machine .empty nestedChain (machine.exec .empty nestedChain) :=
    .of_legal (by decide)
  have h := emission_reaches_innermost hrun (i := 0) (g := 7) (o := 1) (by decide) (by decide)
    .terminal
  exact ⟨h.2.1.trans (by decide), h.2.2.1.trans (by decide)⟩

end WebAsio.Coro.Cancellation
