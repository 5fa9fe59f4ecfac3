import WebAsio.Coro.Protocol
import WebAsio.Library.Custody

set_option autoImplicit false

/-! # Who owns a suspended frame

`Custodian s b` relates a state of the runtime to a book of custody whose tasks are the frames and
whose tokens are the suspensions. A frame that awaits a nested promise is owned by its callee,
through `promise_frame::caller`; a frame that waits for a handler is leased to the suspension of
that handler; a callee that is over is spent, and only the raw handle `callee_` in the awaiter of
its caller still leads to it. The lemmas below say what each kind of change to the state means for
the book. -/

namespace WebAsio.Coro

open Custody

variable {V E : Type}

/-- The token a suspension is, by how far its handler is. A dropped handler whose awaiting side is
    still to come condemns it, unless the initiation may yet throw. -/
def Suspension.token (r : Suspension V E) : Token FrameId :=
  if r.kind = .callback then .unused
  else if r.isOpen = false then .settled
  else match r.stage with
    | .held b => .kept b
    | .dropping => .condemned
    | .gone => if r.word = .destroyed ∧ r.side ≠ .initiating true then .condemned else .loose
    | _ => .loose

/-- A promise frame that is not over has a caller, and a trampoline is inside `init_await`. -/
structure Frame.Started (fr : Frame V E) : Prop where
  called : fr.kind = .promise ↔ fr.caller ≠ none
  bridges : fr.kind = .trampoline ↔ ∃ c h, fr.awaiter = .bridge c h

/-- The record of a frame fits its entry in the book. -/
def Frame.Fits (fr : Frame V E) : Status FrameId SuspId → Prop
  | .unborn => fr = {}
  | .fresh => fr.phase = .initial ∧ fr.kind = .promise ∧ fr.awaiter = .none ∧ fr.caller = none
  | .active => fr.Started ∧
      (fr.phase.isRunning = true ∧ (fr.kind ≠ .trampoline → fr.awaiter = .none) ∨
        fr.phase.isResuming = true ∧ fr.awaiter ≠ .none)
  | .leased _ => fr.Started ∧ (fr.phase.isSuspending = true ∨ fr.phase = .suspended)
  | .owned c => fr.Started ∧ fr.phase = .suspended ∧ fr.awaiter.callee = some c
  | .spent _ => fr.kind = .promise ∧ (fr.phase.isFinalizing = true ∨ fr.phase = .parked) ∧
      fr.caller = none ∧ fr.result ≠ .nothing ∧ fr.awaiter.callee = none
  | .retired => fr.kind = .main ∧ fr.phase = .parked ∧ fr.caller = none ∧ fr.awaiter = .none
  | .ending => fr.phase = .destroying
  | .dead => fr.phase = .destroyed ∧ fr.awaiter = .none ∧ fr.caller = none

structure Custodian (s : State V E) (b : Book FrameId SuspId) : Prop where
  newFrame : ∀ f, s.nextFrame ≤ f → b.status f = .unborn
  newSusp : ∀ h, s.nextSusp ≤ h → s.susp h = {}
  fits : ∀ f, (s.frame f).Fits (b.status f)
  owned : ∀ f c, b.status f = .owned c ↔ (s.frame c).caller = some f
  leased : ∀ f h, b.status f = .leased h ↔
    (s.susp h).handle = f ∧ (s.susp h).isOpen = true ∧ (s.susp h).kind ≠ .callback
  token : ∀ h, b.token h = if h < s.nextSusp then (s.susp h).token else .unused
  context : ∀ f h, (s.frame f).awaiter = .context h → h < s.nextSusp ∧ (s.susp h).frame = f
  finalizing : ∀ c, (s.frame c).phase.isFinalizing = true →
    ∃ h, (s.frame c).awaiter = .context h ∧ (s.susp h).side ≠ .left ∧ (s.susp h).kind ≠ .callback
  /-- the raw handle of a finished callee is in the awaiter of its caller -/
  spent : ∀ c f, b.status c = .spent f →
    (s.frame f).awaiter.callee = some c ∨ b.status f = .ending ∨ b.status f = .dead
  reaps : ∀ f c, b.status f = .active → (s.frame f).awaiter.callee = some c →
    b.status c = .spent f
  own : ∀ f h, b.status f = .leased h → (s.susp h).kind.isFinal = false →
    (s.susp h).frame = f ∧ (s.frame f).awaiter = .context h ∧
      ((s.frame f).phase = .suspended ↔ (s.susp h).side = .left)
  /-- the context by which a callee hands its caller back is in the frame of the callee -/
  final : ∀ f h, b.status f = .leased h → (s.susp h).kind.isFinal = true →
    (s.frame f).awaiter.callee = some (s.susp h).frame ∧ (s.frame f).phase = .suspended ∧
      b.status (s.susp h).frame = .spent f ∧ (s.frame (s.susp h).frame).awaiter = .context h ∧
      ((s.frame (s.susp h).frame).phase = .parked ↔ (s.susp h).side = .left)
  woken : ∀ f h, b.status f = .active → (s.frame f).awaiter = .context h →
    (s.susp h).isOpen = false ∧ ((s.susp h).kind = .deferred → (s.susp h).value ≠ none)
  held : ∀ x h, (s.susp h).stage = .held x ↔
    (∃ c, (s.frame x).awaiter = .bridge c h) ∧ (s.frame x).phase.isRunning = false

namespace Custodian

variable {s s' : State V E} {b : Book FrameId SuspId}

theorem init : Custodian (State.init : State V E) Book.empty := by
  constructor <;>
    simp [State.init, Book.empty, Frame.Fits, Suspension.isOpen, Awaiter.callee, Phase.isFinalizing]

/-! ## The status of a frame, from its phase -/

theorem active_of_running (r : Custodian s b) {f : FrameId}
    (h : (s.frame f).phase.isRunning = true ∨ (s.frame f).phase.isResuming = true) :
    b.status f = .active := by
  have := r.fits f
  cases hb : b.status f <;> simp only [hb, Frame.Fits] at this <;> grind

theorem fresh_of_initial (r : Custodian s b) {f : FrameId} (h : (s.frame f).phase = .initial) :
    b.status f = .fresh := by
  have := r.fits f
  cases hb : b.status f <;> simp only [hb, Frame.Fits] at this <;> grind

theorem ending_of_destroying (r : Custodian s b) {f : FrameId}
    (h : (s.frame f).phase = .destroying) : b.status f = .ending := by
  have := r.fits f
  cases hb : b.status f <;> simp only [hb, Frame.Fits] at this <;> grind

theorem leased_of_suspending (r : Custodian s b) {f : FrameId}
    (h : (s.frame f).phase.isSuspending = true) : ∃ k, b.status f = .leased k := by
  have := r.fits f
  cases hb : b.status f <;> simp only [hb, Frame.Fits] at this <;> grind

theorem spent_of_finalizing (r : Custodian s b) {f : FrameId}
    (h : (s.frame f).phase.isFinalizing = true) : ∃ g, b.status f = .spent g := by
  have := r.fits f
  cases hb : b.status f <;> simp only [hb, Frame.Fits] at this <;> grind

theorem unborn_frame (r : Custodian s b) {f : FrameId} (h : s.nextFrame ≤ f) : s.frame f = {} := by
  have := r.fits f
  rwa [r.newFrame f h] at this

/-- A handler that is not over leads to a frame that waits for it. -/
theorem leased_of_open (r : Custodian s b) {h : SuspId} (ho : (s.susp h).isOpen = true)
    (hk : (s.susp h).kind ≠ .callback) : b.status (s.susp h).handle = .leased h :=
  (r.leased _ h).mpr ⟨rfl, ho, hk⟩

/-- The `resume_context` of a suspension that is not over exists, and its coroutine is suspended. -/
theorem contextLive (r : Custodian s b) {h : SuspId} (ho : (s.susp h).isOpen = true)
    (hk : (s.susp h).kind ≠ .callback) : s.contextLive h = true := by
  have hl := r.leased_of_open ho hk
  have hf := r.fits (s.susp h).handle
  rw [hl] at hf
  rcases hfin : (s.susp h).kind.isFinal with _ | _
  · obtain ⟨hfr, ha, -⟩ := r.own _ h hl hfin
    grind [State.contextLive, Frame.Fits]
  · obtain ⟨-, hp, hs, ha, -⟩ := r.final _ h hl hfin
    have hc := r.fits (s.susp h).frame
    grind [State.contextLive, Frame.Fits]

/-- An active frame whose awaiter leads to no callee has none left to reap. -/
theorem clear (r : Custodian s b) {f : FrameId} (hf : b.status f = .active)
    (ha : (s.frame f).awaiter.callee = none) : b.Clear f := by
  intro y hy
  have := r.spent y f hy
  grind

/-- What the awaiter of a leased frame is: its own, or the `coro_awaitable` of a finished callee. -/
theorem lease_awaiter (r : Custodian s b) {f : FrameId} {h : SuspId}
    (hl : b.status f = .leased h) :
    (s.susp h).kind.isFinal = false ∧ (s.frame f).awaiter = .context h ∨
      (s.susp h).kind.isFinal = true ∧ (s.frame f).awaiter.callee = some (s.susp h).frame := by
  rcases hfin : (s.susp h).kind.isFinal with _ | _
  · exact .inl ⟨rfl, (r.own f h hl hfin).2.1⟩
  · exact .inr ⟨rfl, (r.final f h hl hfin).1⟩

theorem lease_lt (r : Custodian s b) {f : FrameId} {h : SuspId} (hl : b.status f = .leased h) :
    h < s.nextSusp := by
  by_contra hn
  have hs := r.newSusp h (Nat.le_of_not_lt hn)
  have ho := ((r.leased f h).mp hl).2.1
  simp [hs, Suspension.isOpen] at ho

/-! ## The end of a suspension -/

/-- The suspension `h` is over and its frame `f` is in a new phase; nothing else changed but, if
    `h` handed `f` back, that the callee has left its `await_suspend`. -/
structure Ends (s s' : State V E) (f : FrameId) (h : SuspId) : Prop where
  kind : (s'.susp h).kind = (s.susp h).kind
  frame : (s'.susp h).frame = (s.susp h).frame
  handle : (s'.susp h).handle = (s.susp h).handle
  closed : (s'.susp h).isOpen = false
  notHeld : ∀ x, (s.susp h).stage ≠ .held x
  susp : ∀ k, k ≠ h → s'.susp k = s.susp k
  nextSusp : s'.nextSusp = s.nextSusp
  nextFrame : s'.nextFrame = s.nextFrame
  links : ∀ x, (s'.frame x).kind = (s.frame x).kind ∧ (s'.frame x).awaiter = (s.frame x).awaiter ∧
    (s'.frame x).caller = (s.frame x).caller ∧ (s'.frame x).result = (s.frame x).result
  phase : ∀ x, x ≠ f → s'.frame x = s.frame x ∨
    (s.susp h).kind.isFinal = true ∧ x = (s.susp h).frame ∧ (s'.frame x).phase = .parked
  parks : (s.susp h).kind.isFinal = true → (s'.frame (s.susp h).frame).phase = .parked

theorem Ends.notRunning {f : FrameId} {h : SuspId} (e : Ends s s' f h) (r : Custodian s b)
    (hl : b.status f = .leased h) (hp : (s'.frame f).phase.isRunning = false) (x : FrameId) :
    (s'.frame x).phase.isRunning = (s.frame x).phase.isRunning := by
  have hf := r.fits f
  rcases eq_or_ne x f with rfl | hx
  · grind [Frame.Fits]
  rcases e.phase x hx with hx | ⟨hfin, rfl, hpark⟩
  · rw [hx]
  · have hs := (r.final f h hl hfin).2.2.1
    have hc := r.fits (s.susp h).frame
    grind [Frame.Fits]

/-- Frames that are neither `f` nor a finished callee of it are as before. -/
theorem Ends.same {f : FrameId} {h : SuspId} (e : Ends s s' f h) (r : Custodian s b)
    (hl : b.status f = .leased h) (x : FrameId) (hx : x ≠ f) (hs : b.status x ≠ .spent f) :
    s'.frame x = s.frame x := by
  rcases e.phase x hx with hx | ⟨hfin, rfl, -⟩
  · exact hx
  · exact absurd (r.final f h hl hfin).2.2.1 hs

/-- The frame is resumed, or destroyed. -/
theorem ends (r : Custodian s b) {f : FrameId} {h : SuspId} {st : Status FrameId SuspId}
    (hl : b.status f = .leased h) (e : Ends s s' f h)
    (hst : st = .active ∧ (s'.frame f).phase.isResuming = true ∧
        ((s.susp h).kind = .deferred → (s'.susp h).value ≠ none) ∨
      st = .ending ∧ (s'.frame f).phase = .destroying) :
    Custodian s' ((b.set f st).setToken h .settled) := by
  have hlt := r.lease_lt hl
  have haw := r.lease_awaiter hl
  obtain ⟨hfh, hop, hcb⟩ := (r.leased f h).mp hl
  have hrun := e.notRunning r hl (by grind)
  have hsame := e.same r hl
  obtain ⟨ek, ef, eh, eo, en, es, ens, enf, el, ep, epk⟩ := e
  constructor
  case newFrame => have := r.newFrame; grind
  case newSusp => have := r.newSusp; grind
  case fits =>
    intro x
    have hx := r.fits x
    rcases eq_or_ne x f with rfl | hxf
    · grind [Frame.Fits, Frame.Started, Awaiter.callee]
    · rcases ep x hxf with h' | ⟨hfin, rfl, hpark⟩
      · grind
      · have := (r.final f h hl hfin).2.2.1
        grind [Frame.Fits]
  case owned => have := r.owned; clear ep epk; grind
  case leased => have := r.leased; grind
  case token => have := r.token; grind [Suspension.token]
  case context => have := r.context; grind
  case finalizing =>
    intro c hc
    have hown := r.own f h hl
    have hcf : c ≠ f := by rintro rfl; grind
    obtain ⟨k, hk, hside, hkcb⟩ := r.finalizing c (by rcases ep c hcf with h' | h' <;> grind)
    have hfr := (r.context c k hk).2
    refine ⟨k, by grind, ?_⟩
    have hkh : k ≠ h := by grind
    rw [es k hkh]
    exact ⟨hside, hkcb⟩
  case spent => have := r.spent; grind
  case reaps =>
    have := r.reaps
    have := r.final f h hl
    grind [Awaiter.callee]
  case own =>
    clear ep
    have := r.own
    have := r.leased
    grind
  case final =>
    intro g k hg hfin
    have hgf : g ≠ f := by grind
    have hb : b.status g = .leased k := by grind
    have hkh : k ≠ h := fun hk => hgf (by rw [← ((r.leased g k).mp hb).1, hk, hfh])
    rw [es k hkh] at hfin ⊢
    obtain ⟨ha, hp, hs, hc, hpark⟩ := r.final g k hb hfin
    have hcf : (s.susp k).frame ≠ f := by grind
    rw [hsame g hgf (by grind), hsame _ hcf (by grind)]
    exact ⟨ha, hp, by grind, hc, hpark⟩
  case woken =>
    have := r.woken
    grind [Awaiter.callee]
  case held =>
    intro x k
    have := r.held x k
    grind [Suspension.isOpen]

/-! ## Beginnings -/

/-- A coroutine is called: its frame waits to be awaited, or runs at once. -/
theorem born (r : Custodian s b) {fr : Frame V E} {st : Status FrameId SuspId}
    (hst : st = .fresh ∨ st = .active) (hc : fr.caller = none) (ha : fr.awaiter = .none)
    (hfit : ({ fr with callerExecutor := s.nextFrame } : Frame V E).Fits st) :
    Custodian (s.newFrame fr) (b.set s.nextFrame st) := by
  have hn := r.newFrame s.nextFrame (Nat.le_refl _)
  have hu := r.unborn_frame (Nat.le_refl s.nextFrame)
  constructor
  case newFrame => have := r.newFrame; grind
  case newSusp => have := r.newSusp; grind
  case fits => have := r.fits; grind
  case owned => have := r.owned; grind
  case leased => have := r.leased; grind
  case token => have := r.token; grind
  case context => have := r.context; grind
  case finalizing => have := r.finalizing; grind [Frame.Fits]
  case spent => have := r.spent; grind [Awaiter.callee]
  case reaps => have := r.reaps; grind [Awaiter.callee]
  case own => have := r.own; grind
  case final => have := r.final; grind
  case woken => have := r.woken; grind
  case held => have := r.held; grind [Phase.isRunning]

/-- The frame `f` begins to wait for the new suspension `s.nextSusp`, which is its own. -/
structure Leases (s s' : State V E) (f : FrameId) : Prop where
  frame : (s'.susp s.nextSusp).frame = f
  handle : (s'.susp s.nextSusp).handle = f
  kind : (s'.susp s.nextSusp).kind.isFinal = false ∧ (s'.susp s.nextSusp).kind ≠ .callback
  opened : (s'.susp s.nextSusp).isOpen = true
  token : (s'.susp s.nextSusp).token = .loose
  notHeld : ∀ x, (s'.susp s.nextSusp).stage ≠ .held x
  susp : ∀ k, k ≠ s.nextSusp → s'.susp k = s.susp k
  nextSusp : s'.nextSusp = s.nextSusp + 1
  nextFrame : s'.nextFrame = s.nextFrame
  other : ∀ x, x ≠ f → s'.frame x = s.frame x
  links : (s'.frame f).kind = (s.frame f).kind ∧ (s'.frame f).caller = (s.frame f).caller
  awaiter : (s'.frame f).awaiter = .context s.nextSusp
  phase : (s'.frame f).phase.isSuspending = true ∧ (s'.susp s.nextSusp).side ≠ .left ∨
    (s'.frame f).phase = .suspended ∧ (s'.susp s.nextSusp).side = .left

theorem lease (r : Custodian s b) {f : FrameId} (hf : b.status f = .active)
    (ha : (s.frame f).awaiter = .none) (hk : (s.frame f).kind ≠ .trampoline) (e : Leases s s' f) :
    Custodian s' ((b.set f (.leased s.nextSusp)).setToken s.nextSusp .loose) := by
  have hff := r.fits f
  rw [hf] at hff
  have hu := r.newSusp s.nextSusp (Nat.le_refl _)
  have hnl : ∀ x, b.status x ≠ .leased s.nextSusp := fun x hx =>
    absurd (r.lease_lt hx) (Nat.lt_irrefl _)
  have hclear := r.clear hf (by rw [ha]; rfl)
  obtain ⟨ef, eh, ek, eo, et, en, es, ens, enf, eot, el, ea, ep⟩ := e
  constructor
  case newFrame => have := r.newFrame; grind
  case newSusp => have := r.newSusp; grind
  case fits =>
    have := r.fits
    intro x
    rcases eq_or_ne x f with rfl | hx
    · grind [Frame.Fits, Frame.Started]
    · grind
  case owned => have := r.owned; grind
  case leased => have := r.leased; grind
  case token => have := r.token; grind
  case context => have := r.context; grind
  case finalizing => have := r.finalizing; grind
  case spent => have := r.spent; grind [Book.Clear]
  case reaps => have := r.reaps; grind [Awaiter.callee]
  case own => have := r.own; have := r.leased; grind
  case final =>
    intro g k hg hfin
    have hgf : g ≠ f := by grind
    have hb : b.status g = .leased k := by grind
    rw [es k (by grind)] at hfin ⊢
    obtain ⟨ha', hp, hs, hc, hpark⟩ := r.final g k hb hfin
    have hcf : (s.susp k).frame ≠ f := by grind
    rw [eot g hgf, eot _ hcf]
    exact ⟨ha', hp, by grind, hc, hpark⟩
  case woken => have := r.woken; have := r.context; grind
  case held =>
    intro x k
    have := r.held x k
    grind [Frame.Fits]

/-- The frame `c` of a promise is awaited: it knows its caller and runs. -/
structure Starts (s s' : State V E) (c g : FrameId) : Prop where
  kind : (s'.frame c).kind = (s.frame c).kind
  awaiter : (s'.frame c).awaiter = (s.frame c).awaiter
  caller : (s'.frame c).caller = some g
  phase : (s'.frame c).phase.isRunning = true

/-- `f` awaits the promise of `c`. -/
theorem call (r : Custodian s b) {f c : FrameId} (hf : b.status f = .active)
    (ha : (s.frame f).awaiter = .none) (hk : (s.frame f).kind ≠ .trampoline)
    (hc : b.status c = .fresh) (hs : Starts s s' c f)
    (hff : (s'.frame f).kind = (s.frame f).kind ∧ (s'.frame f).caller = (s.frame f).caller ∧
      (s'.frame f).phase = .suspended ∧ (s'.frame f).awaiter = .coro c)
    (hother : ∀ x, x ≠ f → x ≠ c → s'.frame x = s.frame x)
    (hsusp : ∀ k, s'.susp k = s.susp k) (hns : s'.nextSusp = s.nextSusp)
    (hnf : s'.nextFrame = s.nextFrame) :
    Custodian s' ((b.set f (.owned c)).set c .active) := by
  have hfs := r.fits f
  have hcs := r.fits c
  rw [hf] at hfs
  rw [hc] at hcs
  have hclear := r.clear hf (by rw [ha]; rfl)
  obtain ⟨ck, ca, cc, cp⟩ := hs
  constructor
  case newFrame => have := r.newFrame; grind
  case newSusp => have := r.newSusp; grind
  case fits =>
    have := r.fits
    intro x
    by_cases hx : x = c <;> by_cases hx' : x = f <;>
      grind [Frame.Fits, Frame.Started, Awaiter.callee]
  case owned => have := r.owned; grind [Frame.Fits]
  case leased => have := r.leased; grind
  case token => have := r.token; grind
  case context => have := r.context; grind
  case finalizing => have := r.finalizing; grind
  case spent => have := r.spent; grind [Book.Clear]
  case reaps => have := r.reaps; grind [Awaiter.callee, Frame.Fits]
  case own => have := r.own; grind
  case final =>
    intro g k hg hfin
    have hb : b.status g = .leased k := by grind
    rw [hsusp k] at hfin ⊢
    obtain ⟨ha', hp, hs, hc', hpark⟩ := r.final g k hb hfin
    rw [hother g (by grind) (by grind), hother _ (by grind) (by grind)]
    exact ⟨ha', hp, by grind, hc', hpark⟩
  case woken => have := r.woken; grind [Frame.Fits]
  case held =>
    intro x k
    have := r.held x k
    have := r.held c k
    have := r.held f k
    grind [Frame.Fits]

/-- A new trampoline awaits the promise of `c` for a handler of user code. -/
theorem attach (r : Custodian s b) {c : FrameId} (hc : b.status c = .fresh)
    (hs : Starts s s' c s.nextFrame)
    (hx : s'.frame s.nextFrame =
      { kind := .trampoline, phase := .suspended, awaiter := .bridge c s.nextSusp,
        callerExecutor := s.nextFrame })
    (hother : ∀ x, x ≠ s.nextFrame → x ≠ c → s'.frame x = s.frame x)
    (hh : s'.susp s.nextSusp =
      { kind := .callback, frame := s.nextFrame, handle := s.nextFrame,
        stage := .held s.nextFrame })
    (hsusp : ∀ k, k ≠ s.nextSusp → s'.susp k = s.susp k) (hns : s'.nextSusp = s.nextSusp + 1)
    (hnf : s'.nextFrame = s.nextFrame + 1) :
    Custodian s' ((b.set s.nextFrame (.owned c)).set c .active) := by
  have hcs := r.fits c
  rw [hc] at hcs
  have hn := r.newFrame s.nextFrame (Nat.le_refl _)
  have hu := r.unborn_frame (Nat.le_refl s.nextFrame)
  have huh := r.newSusp s.nextSusp (Nat.le_refl _)
  obtain ⟨ck, ca, cc, cp⟩ := hs
  constructor
  case newFrame => have := r.newFrame; grind
  case newSusp => have := r.newSusp; grind
  case fits =>
    have := r.fits
    intro x
    by_cases hx : x = c <;> by_cases hx' : x = s.nextFrame <;>
      grind [Frame.Fits, Frame.Started, Awaiter.callee]
  case owned => have := r.owned; grind [Frame.Fits]
  case leased => have := r.leased; grind [Suspension.isOpen]
  case token => have := r.token; grind [Suspension.token]
  case context => have := r.context; grind
  case finalizing => have := r.finalizing; grind
  case spent => have := r.spent; grind [Awaiter.callee]
  case reaps => have := r.reaps; grind [Awaiter.callee, Frame.Fits]
  case own => have := r.own; have := r.leased; grind
  case final =>
    intro g k hg hfin
    have hb : b.status g = .leased k := by grind
    have hk := r.lease_lt hb
    rw [hsusp k (Nat.ne_of_lt hk)] at hfin ⊢
    obtain ⟨ha', hp, hs, hc', hpark⟩ := r.final g k hb hfin
    rw [hother g (by grind) (by grind), hother _ (by grind) (by grind)]
    exact ⟨ha', hp, by grind, hc', hpark⟩
  case woken => have := r.woken; have := r.context; grind [Frame.Fits]
  case held =>
    intro x k
    have := r.held x k
    have := r.held c k
    have := r.held x s.nextSusp
    grind [Frame.Fits, Phase.isRunning]

/-- `f` awaits `await(c)`: a new trampoline keeps the handler of `f`. -/
theorem bridge (r : Custodian s b) {f c : FrameId} (hf : b.status f = .active)
    (ha : (s.frame f).awaiter = .none) (hk : (s.frame f).kind ≠ .trampoline)
    (hc : b.status c = .fresh) (hs : Starts s s' c s.nextFrame)
    (hff : (s'.frame f).kind = (s.frame f).kind ∧ (s'.frame f).caller = (s.frame f).caller ∧
      (s'.frame f).phase.isSuspending = true ∧ (s'.frame f).awaiter = .context s.nextSusp)
    (hx : s'.frame s.nextFrame =
      { kind := .trampoline, phase := .suspended, awaiter := .bridge c s.nextSusp,
        callerExecutor := s.nextFrame })
    (hother : ∀ x, x ≠ f → x ≠ s.nextFrame → x ≠ c → s'.frame x = s.frame x)
    {o : Option OwnerId}
    (hh : s'.susp s.nextSusp =
      { kind := .deferred, frame := f, handle := f, side := .initiating false,
        stage := .held s.nextFrame, weakThis := o, restoreSharedThis := o.isSome })
    (hsusp : ∀ k, k ≠ s.nextSusp → s'.susp k = s.susp k) (hns : s'.nextSusp = s.nextSusp + 1)
    (hnf : s'.nextFrame = s.nextFrame + 1) :
    Custodian s' ((((b.set f (.leased s.nextSusp)).set s.nextFrame (.owned c)).set c
      .active).setToken s.nextSusp (.kept s.nextFrame)) := by
  have hfs := r.fits f
  have hcs := r.fits c
  rw [hf] at hfs
  rw [hc] at hcs
  have hclear := r.clear hf (by rw [ha]; rfl)
  have hn := r.newFrame s.nextFrame (Nat.le_refl _)
  have hu := r.unborn_frame (Nat.le_refl s.nextFrame)
  have huh := r.newSusp s.nextSusp (Nat.le_refl _)
  have hnl : ∀ x, b.status x ≠ .leased s.nextSusp := fun x hx =>
    absurd (r.lease_lt hx) (Nat.lt_irrefl _)
  obtain ⟨ck, ca, cc, cp⟩ := hs
  constructor
  case newFrame => have := r.newFrame; grind
  case newSusp => have := r.newSusp; grind
  case fits =>
    have := r.fits
    intro x
    by_cases hx : x = c
    · grind [Frame.Fits, Frame.Started, Awaiter.callee]
    by_cases hx' : x = s.nextFrame
    · grind [Frame.Fits, Frame.Started, Awaiter.callee]
    by_cases hx'' : x = f
    · grind [Frame.Fits, Frame.Started, Awaiter.callee]
    · grind
  case owned => have := r.owned; grind [Frame.Fits]
  case leased => have := r.leased; grind [Suspension.isOpen]
  case token => have := r.token; grind [Suspension.token, Suspension.isOpen]
  case context => have := r.context; grind
  case finalizing => have := r.finalizing; grind
  case spent => have := r.spent; grind [Awaiter.callee, Book.Clear]
  case reaps => have := r.reaps; grind [Awaiter.callee, Frame.Fits]
  case own => have := r.own; have := r.leased; grind
  case final =>
    intro g k hg hfin
    have hgf : g ≠ f := by grind [AwaitKind.isFinal]
    have hb : b.status g = .leased k := by grind
    have hk := r.lease_lt hb
    rw [hsusp k (Nat.ne_of_lt hk)] at hfin ⊢
    obtain ⟨ha', hp, hs, hc', hpark⟩ := r.final g k hb hfin
    rw [hother g hgf (by grind) (by grind), hother _ (by grind) (by grind) (by grind)]
    exact ⟨ha', hp, by grind, hc', hpark⟩
  case woken => have := r.woken; have := r.context; grind [Frame.Fits]
  case held =>
    intro x k
    have := r.held x k
    have := r.held c k
    have := r.held f k
    have := r.held x s.nextSusp
    grind [Frame.Fits, Phase.isRunning]

/-! ## The end of a callee -/

/-- `c` is over: it has left its caller `f` and keeps its result. -/
structure Finishes (s s' : State V E) (c : FrameId) : Prop where
  kind : (s'.frame c).kind = .promise
  caller : (s'.frame c).caller = none
  phase : (s'.frame c).phase.isFinalizing = true ∨ (s'.frame c).phase = .parked
  result : (s'.frame c).result ≠ .nothing

/-- `c` is over and its caller is resumed at once. -/
theorem passBack (r : Custodian s b) {f c : FrameId} (hc : b.status c = .active)
    (hca : (s.frame c).awaiter = .none) (hf : b.status f = .owned c) (hs : Finishes s s' c)
    (hpark : (s'.frame c).phase = .parked) (ha : (s'.frame c).awaiter = .none)
    (hff : (s'.frame f).kind = (s.frame f).kind ∧ (s'.frame f).caller = (s.frame f).caller ∧
      (s'.frame f).awaiter = (s.frame f).awaiter ∧ (s'.frame f).phase.isResuming = true)
    (hother : ∀ x, x ≠ f → x ≠ c → s'.frame x = s.frame x)
    (hsusp : ∀ k, s'.susp k = s.susp k) (hns : s'.nextSusp = s.nextSusp)
    (hnf : s'.nextFrame = s.nextFrame) :
    Custodian s' ((b.set c (.spent f)).set f .active) := by
  have hfs := r.fits f
  have hcs := r.fits c
  rw [hf] at hfs
  rw [hc] at hcs
  have hclear := r.clear hc (by rw [hca]; rfl)
  have howned := r.owned
  have hnospent : ∀ y, b.status y ≠ .spent f := by
    intro y hy
    have := r.spent y f hy
    grind [Frame.Fits]
  obtain ⟨ck, cc, cp, cr⟩ := hs
  constructor
  case newFrame => have := r.newFrame; grind
  case newSusp => have := r.newSusp; grind
  case fits =>
    have := r.fits
    intro x
    by_cases hx : x = c <;> by_cases hx' : x = f <;>
      grind [Frame.Fits, Frame.Started, Awaiter.callee]
  case owned => grind [Frame.Fits]
  case leased => have := r.leased; grind
  case token => have := r.token; grind
  case context => have := r.context; grind
  case finalizing => have := r.finalizing; grind
  case spent => have := r.spent; grind [Book.Clear, Frame.Fits]
  case reaps => have := r.reaps; grind [Frame.Fits]
  case own => have := r.own; grind
  case final =>
    intro g k hg hfin
    have hb : b.status g = .leased k := by grind
    rw [hsusp k] at hfin ⊢
    obtain ⟨ha', hp, hs, hc', hpark'⟩ := r.final g k hb hfin
    rw [hother g (by grind) (by grind), hother _ (by grind) (by grind)]
    exact ⟨ha', hp, by grind, hc', hpark'⟩
  case woken => have := r.woken; grind [Frame.Fits, Awaiter.callee]
  case held =>
    intro x k
    have := r.held x k
    have := r.held c k
    have := r.held f k
    grind [Frame.Fits, Phase.isRunning]

/-- `c` is over and hands its caller to a new suspension. -/
theorem passOn (r : Custodian s b) {f c : FrameId} (hc : b.status c = .active)
    (hca : (s.frame c).awaiter = .none) (hf : b.status f = .owned c) (hs : Finishes s s' c)
    (ha : (s'.frame c).awaiter = .context s.nextSusp)
    (hother : ∀ x, x ≠ c → s'.frame x = s.frame x)
    (hh : (s'.susp s.nextSusp).frame = c ∧ (s'.susp s.nextSusp).handle = f ∧
      (s'.susp s.nextSusp).kind.isFinal = true ∧ (s'.susp s.nextSusp).isOpen = true ∧
      (s'.susp s.nextSusp).token = .loose ∧ (∀ x, (s'.susp s.nextSusp).stage ≠ .held x) ∧
      ((s'.frame c).phase = .parked ↔ (s'.susp s.nextSusp).side = .left))
    (hsusp : ∀ k, k ≠ s.nextSusp → s'.susp k = s.susp k) (hns : s'.nextSusp = s.nextSusp + 1)
    (hnf : s'.nextFrame = s.nextFrame) :
    Custodian s' (((b.set c (.spent f)).set f (.leased s.nextSusp)).setToken s.nextSusp
      .loose) := by
  have hfs := r.fits f
  have hcs := r.fits c
  rw [hf] at hfs
  rw [hc] at hcs
  have hclear := r.clear hc (by rw [hca]; rfl)
  have howned := r.owned
  have huh := r.newSusp s.nextSusp (Nat.le_refl _)
  have hnl : ∀ x, b.status x ≠ .leased s.nextSusp := fun x hx =>
    absurd (r.lease_lt hx) (Nat.lt_irrefl _)
  have hnospent : ∀ y, b.status y ≠ .spent f := by
    intro y hy
    have := r.spent y f hy
    grind [Frame.Fits]
  have hkind : (s'.susp s.nextSusp).kind ≠ .callback := by grind [AwaitKind.isFinal]
  obtain ⟨ck, cc, cp, cr⟩ := hs
  constructor
  case newFrame => have := r.newFrame; grind
  case newSusp => have := r.newSusp; grind
  case fits =>
    have := r.fits
    intro x
    by_cases hx : x = c <;> by_cases hx' : x = f <;>
      grind [Frame.Fits, Frame.Started, Awaiter.callee]
  case owned => grind [Frame.Fits]
  case leased => have := r.leased; grind
  case token => have := r.token; grind
  case context => have := r.context; grind
  case finalizing => have := r.finalizing; grind
  case spent => have := r.spent; grind [Book.Clear, Frame.Fits]
  case reaps => have := r.reaps; grind [Frame.Fits]
  case own => have := r.own; have := r.leased; grind
  case final =>
    intro g k hg hfin
    by_cases hgf : g = f
    · have hk : k = s.nextSusp := by grind
      grind [Frame.Fits, Awaiter.callee]
    have hb : b.status g = .leased k := by grind
    have hk := r.lease_lt hb
    rw [hsusp k (Nat.ne_of_lt hk)] at hfin ⊢
    obtain ⟨ha', hp, hs, hc', hpark⟩ := r.final g k hb hfin
    rw [hother g (by grind), hother _ (by grind)]
    exact ⟨ha', hp, by grind, hc', hpark⟩
  case woken => have := r.woken; have := r.context; grind [Frame.Fits, Awaiter.callee]
  case held =>
    intro x k
    have := r.held x k
    have := r.held c k
    grind [Frame.Fits, Phase.isRunning]

/-- The caller goes on: its awaiter ends, and the finished callee it leads to is destroyed. -/
theorem proceed (r : Custodian s b) {f : FrameId} (hf : b.status f = .active)
    (hk : (s.frame f).kind ≠ .trampoline)
    (hff : (s'.frame f).kind = (s.frame f).kind ∧ (s'.frame f).caller = (s.frame f).caller ∧
      (s'.frame f).awaiter = .none ∧ (s'.frame f).phase.isRunning = true)
    (hother : ∀ x, x ≠ f → (s.frame f).awaiter.callee ≠ some x → s'.frame x = s.frame x)
    (hcallee : ∀ c, (s.frame f).awaiter.callee = some c → (s'.frame c).kind = (s.frame c).kind ∧
      (s'.frame c).caller = (s.frame c).caller ∧ (s'.frame c).awaiter = (s.frame c).awaiter ∧
      (s'.frame c).phase = .destroying)
    (hsusp : ∀ k, s'.susp k = s.susp k) (hns : s'.nextSusp = s.nextSusp)
    (hnf : s'.nextFrame = s.nextFrame) :
    ∃ b', (b' = b ∨ ∃ c, b.status c = .spent f ∧ b' = b.set c .ending) ∧ Custodian s' b' := by
  have hfs := r.fits f
  rw [hf] at hfs
  rcases hc : (s.frame f).awaiter.callee with _ | c
  · refine ⟨b, .inl rfl, ?_⟩
    have hclear := r.clear hf hc
    have hsame : ∀ x, x ≠ f → s'.frame x = s.frame x := fun x hx => hother x hx (by simp [hc])
    clear hother hcallee
    constructor
    case newFrame => have := r.newFrame; grind
    case newSusp => have := r.newSusp; grind
    case fits =>
      have := r.fits
      intro x
      by_cases hx : x = f <;> grind [Frame.Fits, Frame.Started]
    case owned => have := r.owned; grind
    case leased => have := r.leased; grind
    case token => have := r.token; grind
    case context => have := r.context; grind
    case finalizing => have := r.finalizing; grind
    case spent => have := r.spent; grind [Book.Clear]
    case reaps => have := r.reaps; grind [Awaiter.callee]
    case own => have := r.own; grind
    case final =>
      intro g k hb hfin
      rw [hsusp k] at hfin ⊢
      obtain ⟨ha', hp, hs, hc', hpark⟩ := r.final g k hb hfin
      rw [hsame g (by grind), hsame _ (by grind)]
      exact ⟨ha', hp, hs, hc', hpark⟩
    case woken => have := r.woken; grind
    case held =>
      intro x k
      have := r.held x k
      have := r.held f k
      grind [Frame.Fits, Frame.Started]
  · have hspent := r.reaps f c hf hc
    refine ⟨_, .inr ⟨c, hspent, rfl⟩, ?_⟩
    have hcs := r.fits c
    rw [hspent] at hcs
    have hcf : c ≠ f := by grind
    have hsame : ∀ x, x ≠ f → x ≠ c → s'.frame x = s.frame x := fun x hx hxc =>
      hother x hx (by simp [hc, Ne.symm hxc])
    replace hcallee := hcallee c hc
    clear hother
    constructor
    case newFrame => have := r.newFrame; grind
    case newSusp => have := r.newSusp; grind
    case fits =>
      have := r.fits
      intro x
      by_cases hx : x = f <;> by_cases hx' : x = c <;> grind [Frame.Fits, Frame.Started]
    case owned => have := r.owned; grind
    case leased => have := r.leased; grind
    case token => have := r.token; grind
    case context => have := r.context; grind
    case finalizing => have := r.finalizing; grind
    case spent =>
      intro y g hy
      have := r.spent y g
      grind
    case reaps => have := r.reaps; grind [Awaiter.callee]
    case own => have := r.own; grind
    case final =>
      intro g k hg hfin
      have hb : b.status g = .leased k := by grind
      rw [hsusp k] at hfin ⊢
      obtain ⟨ha', hp, hs, hc', hpark⟩ := r.final g k hb hfin
      rw [hsame g (by grind) (by grind), hsame _ (by grind) (by grind)]
      exact ⟨ha', hp, by grind, hc', hpark⟩
    case woken => have := r.woken; grind
    case held =>
      intro x k
      have := r.held x k
      have := r.held f k
      have := r.held c k
      grind [Frame.Fits, Frame.Started]

/-- A trampoline whose handler has run destroys its callee and ends. -/
theorem bridgeEnds (r : Custodian s b) {x c : FrameId} {h : SuspId} (hx : b.status x = .active)
    (ha : (s.frame x).awaiter = .bridge c h) (hg : (s.susp h).stage = .gone)
    (hxx : (s'.frame x).phase = .destroyed ∧ (s'.frame x).awaiter = .none ∧
      (s'.frame x).caller = (s.frame x).caller)
    (hcc : (s'.frame c).kind = (s.frame c).kind ∧ (s'.frame c).caller = (s.frame c).caller ∧
      (s'.frame c).awaiter = (s.frame c).awaiter ∧ (s'.frame c).phase = .destroying)
    (hother : ∀ y, y ≠ x → y ≠ c → s'.frame y = s.frame y)
    (hsusp : ∀ k, s'.susp k = s.susp k) (hns : s'.nextSusp = s.nextSusp)
    (hnf : s'.nextFrame = s.nextFrame) :
    b.status c = .spent x ∧ Custodian s' ((b.set c .ending).set x .dead) := by
  have hxs := r.fits x
  rw [hx] at hxs
  have hspent := r.reaps x c hx (by rw [ha]; rfl)
  have hcs := r.fits c
  rw [hspent] at hcs
  have hcall : (s.frame x).caller = none := by grind [Frame.Fits, Frame.Started]
  refine ⟨hspent, ?_⟩
  constructor
  case newFrame => have := r.newFrame; grind
  case newSusp => have := r.newSusp; grind
  case fits =>
    have := r.fits
    intro y
    by_cases hy : y = x <;> by_cases hy' : y = c <;> grind [Frame.Fits, Frame.Started]
  case owned => have := r.owned; grind
  case leased => have := r.leased; grind
  case token => have := r.token; grind
  case context => have := r.context; grind
  case finalizing => have := r.finalizing; grind
  case spent =>
    intro y g hy
    have := r.spent y g
    grind
  case reaps => have := r.reaps; grind [Awaiter.callee]
  case own => have := r.own; grind
  case final =>
    intro g k hg hfin
    have hb : b.status g = .leased k := by grind
    rw [hsusp k] at hfin ⊢
    obtain ⟨ha', hp, hs, hc', hpark⟩ := r.final g k hb hfin
    rw [hother g (by grind) (by grind), hother _ (by grind) (by grind)]
    exact ⟨ha', hp, by grind, hc', hpark⟩
  case woken => have := r.woken; grind
  case held =>
    intro y k
    have := r.held y k
    have := r.held x k
    have := r.held c k
    grind [Frame.Fits, Frame.Started]

/-- A frame nobody waits for runs off its end. -/
theorem quit (r : Custodian s b) {f : FrameId} {st : Status FrameId SuspId}
    (hf : b.status f = .active) (ha : (s.frame f).awaiter = .none)
    (hk : (s.frame f).kind ≠ .promise)
    (hff : (s'.frame f).kind = (s.frame f).kind ∧ (s'.frame f).caller = (s.frame f).caller ∧
      (s'.frame f).awaiter = (s.frame f).awaiter)
    (hst : st = .dead ∧ (s'.frame f).phase = .destroyed ∨
      st = .retired ∧ (s.frame f).kind = .main ∧ (s'.frame f).phase = .parked)
    (hother : ∀ x, x ≠ f → s'.frame x = s.frame x)
    (hsusp : ∀ k, s'.susp k = s.susp k) (hns : s'.nextSusp = s.nextSusp)
    (hnf : s'.nextFrame = s.nextFrame) :
    Custodian s' (b.set f st) := by
  have hfs := r.fits f
  rw [hf] at hfs
  have hclear := r.clear hf (by rw [ha]; rfl)
  constructor
  case newFrame => have := r.newFrame; grind
  case newSusp => have := r.newSusp; grind
  case fits =>
    have := r.fits
    intro x
    by_cases hx : x = f <;> grind [Frame.Fits, Frame.Started]
  case owned => have := r.owned; grind
  case leased => have := r.leased; grind
  case token => have := r.token; grind
  case context => have := r.context; grind
  case finalizing => have := r.finalizing; grind
  case spent => have := r.spent; grind [Book.Clear]
  case reaps => have := r.reaps; grind [Awaiter.callee]
  case own => have := r.own; grind
  case final =>
    intro g k hg hfin
    have hb : b.status g = .leased k := by grind
    rw [hsusp k] at hfin ⊢
    obtain ⟨ha', hp, hs, hc', hpark⟩ := r.final g k hb hfin
    rw [hother g (by grind), hother _ (by grind)]
    exact ⟨ha', hp, by grind, hc', hpark⟩
  case woken => have := r.woken; grind
  case held =>
    intro x k
    have := r.held x k
    have := r.held f k
    grind

/-- A promise that was never awaited is destroyed. -/
theorem discard (r : Custodian s b) {f : FrameId} (hf : b.status f = .fresh)
    (hff : (s'.frame f).kind = (s.frame f).kind ∧ (s'.frame f).caller = (s.frame f).caller ∧
      (s'.frame f).awaiter = (s.frame f).awaiter ∧ (s'.frame f).phase = .destroying)
    (hother : ∀ x, x ≠ f → s'.frame x = s.frame x)
    (hsusp : ∀ k, s'.susp k = s.susp k) (hns : s'.nextSusp = s.nextSusp)
    (hnf : s'.nextFrame = s.nextFrame) :
    Custodian s' (b.set f .ending) := by
  have hfs := r.fits f
  rw [hf] at hfs
  constructor
  case newFrame => have := r.newFrame; grind
  case newSusp => have := r.newSusp; grind
  case fits =>
    have := r.fits
    intro x
    by_cases hx : x = f <;> grind [Frame.Fits]
  case owned => have := r.owned; grind
  case leased => have := r.leased; grind
  case token => have := r.token; grind
  case context => have := r.context; grind
  case finalizing => have := r.finalizing; grind
  case spent => have := r.spent; grind
  case reaps => have := r.reaps; grind
  case own => have := r.own; grind
  case final =>
    intro g k hg hfin
    have hb : b.status g = .leased k := by grind
    rw [hsusp k] at hfin ⊢
    obtain ⟨ha', hp, hs, hc', hpark⟩ := r.final g k hb hfin
    rw [hother g (by grind), hother _ (by grind)]
    exact ⟨ha', hp, by grind, hc', hpark⟩
  case woken => have := r.woken; grind
  case held =>
    intro x k
    have := r.held x k
    have := r.held f k
    grind [Frame.Fits]

/-- A frame whose `destroy()` is executed takes along the caller it owns and the handler it
    keeps. -/
theorem bury (r : Custodian s b) {f : FrameId} (hf : b.status f = .ending)
    (hff : (s'.frame f).phase = .destroyed ∧ (s'.frame f).awaiter = .none ∧
      (s'.frame f).caller = none)
    (hown : ∀ g, (s.frame f).caller = some g → (s'.frame g).kind = (s.frame g).kind ∧
      (s'.frame g).caller = (s.frame g).caller ∧ (s'.frame g).awaiter = (s.frame g).awaiter ∧
      (s'.frame g).phase = .destroying)
    (hother : ∀ x, x ≠ f → (s.frame f).caller ≠ some x → s'.frame x = s.frame x)
    (hheld : ∀ h, (s.susp h).stage = .held f → s'.susp h = { s.susp h with stage := .dropping })
    (hsusp : ∀ h, (s.susp h).stage ≠ .held f → s'.susp h = s.susp h)
    (hns : s'.nextSusp = s.nextSusp) (hnf : s'.nextFrame = s.nextFrame) :
    Custodian s' (b.bury f) := by
  have hfs := r.fits f
  rw [hf] at hfs
  have howned := r.owned
  have hnf' : ∀ x, b.status x = .owned f → x ≠ f := by grind
  have hsame : ∀ x, x ≠ f → b.status x ≠ .owned f → s'.frame x = s.frame x := fun x hx ho =>
    hother x hx (by simpa [howned] using ho)
  have hend : ∀ x, b.status x = .owned f → (s'.frame x).kind = (s.frame x).kind ∧
      (s'.frame x).caller = (s.frame x).caller ∧ (s'.frame x).awaiter = (s.frame x).awaiter ∧
      (s'.frame x).phase = .destroying := fun x hx => hown x ((howned x f).mp hx)
  have hkeep : ∀ h, (s'.susp h).kind = (s.susp h).kind ∧ (s'.susp h).frame = (s.susp h).frame ∧
      (s'.susp h).handle = (s.susp h).handle ∧ (s'.susp h).isOpen = (s.susp h).isOpen ∧
      (s'.susp h).side = (s.susp h).side ∧ (s'.susp h).value = (s.susp h).value := by
    intro h
    by_cases hh : (s.susp h).stage = .held f
    · rw [hheld h hh]
      grind [Suspension.isOpen]
    · rw [hsusp h hh]
      simp
  have hidle : ∀ x, b.status x = .owned f → (s.frame x).phase.isRunning = false := by
    intro x hx
    have := r.fits x
    grind [Frame.Fits, Phase.isRunning]
  clear hother hown
  constructor
  case newFrame => have := r.newFrame; grind
  case newSusp => have := r.newSusp; grind
  case fits =>
    have := r.fits
    intro x
    by_cases hx : x = f
    · grind [Frame.Fits]
    by_cases ho : b.status x = .owned f
    · grind [Frame.Fits]
    · grind
  case owned =>
    intro g c
    have := howned g c
    by_cases hx : c = f
    · grind
    by_cases ho : b.status c = .owned f
    · grind
    · grind
  case leased => have := r.leased; grind
  case token =>
    intro h
    have := r.token h
    by_cases hh : (s.susp h).stage = .held f
    · rw [hheld h hh]
      grind [Suspension.token, Suspension.isOpen]
    · rw [hsusp h hh]
      grind [Suspension.token]
  case context => have := r.context; grind
  case finalizing => have := r.finalizing; grind
  case spent => have := r.spent; grind
  case reaps => have := r.reaps; grind
  case own =>
    intro g k hg hfin
    have := r.own g k
    grind
  case final =>
    intro g k hg hfin
    have hb : b.status g = .leased k := by grind
    have hk := hkeep k
    obtain ⟨ha', hp, hs, hc', hpark⟩ := r.final g k hb (by grind)
    rw [hk.2.1, hsame g (by grind) (by grind), hsame _ (by grind) (by grind)]
    exact ⟨ha', hp, by grind, hc', by grind⟩
  case woken => have := r.woken; grind
  case held =>
    intro x k
    have := r.held x k
    have := r.held f k
    by_cases hh : (s.susp k).stage = .held f
    · rw [hheld k hh]
      grind
    · rw [hsusp k hh]
      by_cases hx : x = f
      · grind
      by_cases ho : b.status x = .owned f
      · grind [Phase.isRunning]
      · grind

/-! ## Steps of a suspension that wake nobody -/

/-- Custody depends on the frames and the suspensions alone. -/
theorem congr (r : Custodian s b) (hf : ∀ x, s'.frame x = s.frame x)
    (hsusp : ∀ k, s'.susp k = s.susp k) (hns : s'.nextSusp = s.nextSusp)
    (hnf : s'.nextFrame = s.nextFrame) : Custodian s' b := by
  obtain ⟨_, _, _, _, _, _, _, _, _, _, _, _, _, _⟩ := r
  constructor <;> simpa only [hf, hsusp, hns, hnf]

/-- The suspension `h` takes a step that does not end it and moves no frame. -/
structure Moves (s s' : State V E) (h : SuspId) : Prop where
  kind : (s'.susp h).kind = (s.susp h).kind
  frame : (s'.susp h).frame = (s.susp h).frame
  handle : (s'.susp h).handle = (s.susp h).handle
  opened : (s.susp h).isOpen = true
  notOver : (s.susp h).kind ≠ .callback → (s'.susp h).isOpen = true
  side : (s'.susp h).side = .left ↔ (s.susp h).side = .left
  held : ∀ x, (s'.susp h).stage = .held x ↔ (s.susp h).stage = .held x
  susp : ∀ k, k ≠ h → s'.susp k = s.susp k
  nextSusp : s'.nextSusp = s.nextSusp
  nextFrame : s'.nextFrame = s.nextFrame
  frames : ∀ x, s'.frame x = s.frame x ∨
    s'.frame x = { s.frame x with sharedThis := none } ∧ (s.frame x).phase.isSuspending

theorem moves (r : Custodian s b) {h : SuspId} (e : Moves s s' h) :
    Custodian s' (b.setToken h (s'.susp h).token) := by
  have hlt : h < s.nextSusp := by
    by_contra hn
    have := e.opened
    rw [r.newSusp h (Nat.le_of_not_lt hn)] at this
    simp [Suspension.isOpen] at this
  obtain ⟨ek, ef, eh, eo, eo', ed, en, es, ens, enf, el⟩ := e
  have hlinks : ∀ x, (s'.frame x).kind = (s.frame x).kind ∧
      (s'.frame x).awaiter = (s.frame x).awaiter ∧ (s'.frame x).caller = (s.frame x).caller ∧
      (s'.frame x).phase = (s.frame x).phase := by
    intro x
    rcases el x with h | ⟨h, -⟩ <;> simp [h]
  constructor
  case newFrame => have := r.newFrame; grind
  case newSusp => have := r.newSusp; grind
  case fits =>
    intro x
    have hx := r.fits x
    rcases el x with h | ⟨h, hp⟩
    · grind
    · obtain ⟨k, hk⟩ := r.leased_of_suspending hp
      grind [Frame.Fits, Frame.Started]
  case owned => have := r.owned; grind
  case leased => have := r.leased; grind
  case token => have := r.token; grind
  case context => have := r.context; grind
  case finalizing => have := r.finalizing; grind
  case spent => have := r.spent; grind
  case reaps => have := r.reaps; grind
  case own => have := r.own; grind
  case final => have := r.final; grind
  case woken => have := r.woken; grind
  case held => have := r.held; grind

/-- The awaiting side of `h` leaves, and the handler is still to come. -/
structure Leaves (s s' : State V E) (h : SuspId) : Prop where
  here : s'.susp h = { s.susp h with word := .awaiting, side := .left }
  came : (s.susp h).side ≠ .left
  pending : (s.susp h).stage.isPending = true
  susp : ∀ k, k ≠ h → s'.susp k = s.susp k
  nextSusp : s'.nextSusp = s.nextSusp
  nextFrame : s'.nextFrame = s.nextFrame
  other : ∀ x, x ≠ (s.susp h).frame → s'.frame x = s.frame x
  left : s'.frame (s.susp h).frame = { s.frame (s.susp h).frame with
    phase := if (s.susp h).kind.isFinal then .parked else .suspended }

theorem leaves (r : Custodian s b) {f : FrameId} {h : SuspId} (hl : b.status f = .leased h)
    (e : Leaves s s' h) : Custodian s' b := by
  have hlt := r.lease_lt hl
  obtain ⟨hfh, hop, hcb⟩ := (r.leased f h).mp hl
  obtain ⟨eh, ec, ep, es, ens, enf, eot, el⟩ := e
  have hown := r.own f h hl
  have hfin := r.final f h hl
  have hlinks : ∀ x, (s'.frame x).kind = (s.frame x).kind ∧
      (s'.frame x).awaiter = (s.frame x).awaiter ∧ (s'.frame x).caller = (s.frame x).caller := by
    intro x
    by_cases hx : x = (s.susp h).frame
    · rw [hx, el]; simp
    · simp [eot x hx]
  have hrun : ∀ x, (s'.frame x).phase.isRunning = (s.frame x).phase.isRunning := by
    intro x
    have hx' := r.fits x
    by_cases hx : x = (s.susp h).frame
    · rw [hx, el]
      grind [Frame.Fits, Phase.isRunning]
    · simp [eot x hx]
  constructor
  case newFrame => have := r.newFrame; grind
  case newSusp => have := r.newSusp; grind
  case fits =>
    intro x
    have hx' := r.fits x
    by_cases hx : x = (s.susp h).frame
    · rw [hx, el]
      grind [Frame.Fits, Frame.Started]
    · rwa [eot x hx]
  case owned => have := r.owned; grind
  case leased =>
    have := r.leased
    grind [Suspension.isOpen, HandlerStage.isPending]
  case token =>
    intro k
    have := r.token k
    by_cases hk : k = h
    · subst hk
      rw [eh]
      grind [Suspension.token, Suspension.isOpen, HandlerStage.isPending]
    · rw [es k hk]; grind
  case context => have := r.context; grind
  case finalizing => have := r.finalizing; have := r.context; grind
  case spent => have := r.spent; grind
  case reaps => have := r.reaps; grind
  case own =>
    intro g k hg hf
    have := r.own g k hg
    have := r.own f h
    by_cases hk : k = h
    · grind
    · rw [es k hk] at hf ⊢
      have := r.leased g k
      by_cases hx : g = (s.susp h).frame
      · grind
      · grind
  case final =>
    intro g k hg hf
    have := r.final g k hg
    by_cases hk : k = h
    · grind
    · rw [es k hk] at hf ⊢
      have hgx : g ≠ (s.susp h).frame := by grind
      have hkx : (s.susp k).frame ≠ (s.susp h).frame := by grind
      grind
  case woken => have := r.woken; grind
  case held => have := r.held; grind

/-- A trampoline invokes the handler it keeps. -/
structure Invokes (s s' : State V E) (x : FrameId) (h : SuspId) : Prop where
  susp : ∀ k, k ≠ h → s'.susp k = s.susp k
  held : (s.susp h).stage = .held x
  names : (s'.susp h).kind = (s.susp h).kind ∧ (s'.susp h).frame = (s.susp h).frame ∧
    (s'.susp h).handle = (s.susp h).handle ∧ (s'.susp h).side = (s.susp h).side
  stage : (s.susp h).kind = .callback ∧ (s'.susp h).stage = .gone ∨
    (s.susp h).kind ≠ .callback ∧ ∃ t, (s'.susp h).stage = .invoked t
  nextSusp : s'.nextSusp = s.nextSusp
  nextFrame : s'.nextFrame = s.nextFrame
  other : ∀ y, y ≠ x → s'.frame y = s.frame y
  links : (s'.frame x).kind = (s.frame x).kind ∧ (s'.frame x).awaiter = (s.frame x).awaiter ∧
    (s'.frame x).caller = (s.frame x).caller
  phase : (s'.frame x).phase.isRunning = true

theorem invokes (r : Custodian s b) {x c : FrameId} {h : SuspId} (hx : b.status x = .active)
    (ha : (s.frame x).awaiter = .bridge c h) (hk : (s.frame x).kind = .trampoline)
    (e : Invokes s s' x h) : Custodian s' (b.setToken h (s'.susp h).token) := by
  have hlt : h < s.nextSusp := by
    by_contra hn
    have := e.held
    rw [r.newSusp h (Nat.le_of_not_lt hn)] at this
    simp at this
  have hxs := r.fits x
  rw [hx] at hxs
  obtain ⟨es, eh, en, est, ens, enf, eot, el, ep⟩ := e
  constructor
  case newFrame => have := r.newFrame; grind
  case newSusp => have := r.newSusp; grind
  case fits =>
    intro y
    have hy' := r.fits y
    by_cases hy : y = x
    · grind [Frame.Fits, Frame.Started]
    · rwa [eot y hy]
  case owned => have := r.owned; grind
  case leased => have := r.leased; grind [Suspension.isOpen]
  case token => have := r.token; grind
  case context => have := r.context; grind
  case finalizing => have := r.finalizing; grind
  case spent => have := r.spent; grind
  case reaps => have := r.reaps; grind
  case own => have := r.own; grind
  case final =>
    intro g k hg hf
    have hg' : b.status g = .leased k := by grind
    have := r.final g k hg'
    grind
  case woken =>
    have := r.woken
    grind [Suspension.isOpen]
  case held =>
    intro y k
    have := r.held y k
    have := r.held x k
    grind

end Custodian

end WebAsio.Coro
