import WebAsio.Coro.Turns

set_option autoImplicit false

/-! # The story of a coroutine

What a coroutine and those it awaits have done since its body began, in the order in which it
happened, leads in the direct-style meaning of the body to what is left of it at the point where the
coroutine stands. Of the coroutines with one outermost frame only one can go on, and the last events
of that frame are its own. -/

namespace WebAsio.Coro.Direct

open Custody Transition

variable {V E L : Type}

namespace Point

/-- The coroutine was called from outside or is awaited, and its result was not taken yet. -/
def isLive : Point V E L → Bool
  | .lazy _ | .rest _ | .called .. | .waiting .. | .leaving .. | .ended _ => true
  | _ => false

/-- The coroutine does not wait for another one: of those with one outermost frame it is the one
    whose turn it is. -/
def leads : Point V E L → Bool
  | .lazy _ | .rest _ | .called .. | .leaving .. | .ended _ => true
  | _ => false

/-- The promise belongs to a `co_await` expression. -/
def isInner : Point V E L → Bool
  | .temporary _ | .reaped => true
  | _ => false

/-- The promise that a coroutine has called last, as long as it has to do with it. -/
def callee : Point V E L → Option FrameId
  | .called c _ _ | .waiting c _ | .leaving c _ _ => some c
  | _ => none

end Point

/-! ## What is left in direct style -/

/-- A `co_await` of a promise with the body `b`, and what follows it. -/
def Body.awaited (b : Body V E L) (k : Except E V → Body V E L) : Talk V E L (BodyEnd V E) :=
  (Body.call none b k).run

/-- What is left when the result of the promise is taken. -/
def goOn (r : Except E V) (k : Except E V → Body V E L) : Talk V E L (BodyEnd V E) :=
  handOver r >>= fun r => (k r).run

/-- From the beginning of `m`, given the results among `es`, the events `es` lead to `n`. -/
abbrev LeadsTo {α : Type} (m : Talk V E L α) (es : List (Event V E L)) (n : Talk V E L α) : Prop :=
  Dialogue.Leads Event.answer m es n

/-- The frame of the callee is destroyed, and the result observed. -/
theorem LeadsTo.handedOver (r : Except E V) (k : Except E V → Body V E L) :
    LeadsTo (goOn r k) [.destroyed, .observed r] (k r).run := by
  have hd : LeadsTo (goOn r k) [.destroyed]
      (Dialogue.tell (.observed r) >>= fun _ => (k r).run) :=
    .tell rfl fun _ => Dialogue.tell (.observed r) >>= fun _ => (k r).run
  exact hd.trans (.tell rfl _)

/-- The events of a callee that is over are those of its `co_await`. -/
theorem LeadsTo.awaited {m : Talk V E L (BodyEnd V E)} {b : Body V E L}
    {k : Except E V → Body V E L} {es fs : List (Event V E L)} {e : BodyEnd V E}
    (h : LeadsTo m es (b.awaited k)) (hb : LeadsTo b.run fs (pure e)) :
    LeadsTo m (es ++ ([.begins] ++ fs)) (goOn e.result k) := by
  refine h.trans (Dialogue.Leads.trans (.tell rfl _) ?_)
  have hk := hb.bind fun e => goOn e.result k
  rwa [pure_bind] at hk

/-- A callee that is under way keeps its caller waiting. -/
theorem LeadsTo.awaiting {m : Talk V E L (BodyEnd V E)} {b : Body V E L}
    {k : Except E V → Body V E L} {es fs : List (Event V E L)} {n : Talk V E L (BodyEnd V E)}
    (h : LeadsTo m es (b.awaited k)) (hb : LeadsTo b.run fs n) :
    LeadsTo m (es ++ ([.begins] ++ fs)) (n >>= fun e => goOn e.result k) :=
  h.trans (Dialogue.Leads.trans (.tell rfl _) (hb.bind _))

/-! ## The story of a coroutine -/

/-- The events since the body of `x` began lead from the body to `m`. -/
def Follows (s : Program V E L) (x : FrameId) (m : Talk V E L (BodyEnd V E)) : Prop :=
  ∃ b es, s.code x = some b ∧ s.log (s.root x) = s.before x ++ es ∧ LeadsTo b.run es m

/-- The events from the beginning of `x` to that of `c` lead to the `co_await` of `c`. -/
def Pends (s : Program V E L) (x c : FrameId) (k : Except E V → Body V E L) : Prop :=
  ∃ b d es, s.code x = some b ∧ s.code c = some d ∧ s.before c = s.before x ++ es ++ [.begins] ∧
    LeadsTo b.run es (d.awaited k)

/-- The body of `c` is over with the result `r`. -/
def Yields (s : Program V E L) (c : FrameId) (r : Except E V) : Prop :=
  ∃ e : BodyEnd V E, r = e.result ∧ Follows s c (pure e)

/-- The coroutine `x` has called `c`. -/
structure Calls (s : Program V E L) (x c : FrameId) : Prop where
  lt : x < c
  caller : s.caller c = x
  root : s.root c = s.root x

/-- What has happened to a coroutine that stands somewhere. While it waits for a callee, the events
    after the beginning of the callee belong to the story of that. -/
def Story (s : Program V E L) (x : FrameId) : Point V E L → Prop
  | .lazy b | .rest b => Follows s x b.run
  | .temporary b => s.code x = some b
  | .called c b k => Follows s x (b.awaited k) ∧ Calls s x c ∧ s.point c = .temporary b
  | .waiting c k => Pends s x c k ∧ Calls s x c ∧ (s.point c).isLive = true
  | .leaving c r k => Follows s x (goOn r k) ∧ Calls s x c ∧ s.point c = .reaped ∧ Yields s c r
  | .ended e => Follows s x (pure e)
  | .absent | .reaped | .aborted => True

/-- The stories of all coroutines. Of those with one outermost frame it is the turn of one, so only
    its events are added to theirs. -/
structure Program.Told (s : Program V E L) : Prop where
  story : ∀ x, Story s x (s.point x)
  single : ∀ x y, (s.point x).leads = true → (s.point y).leads = true → s.root x = s.root y → x = y
  rooted : ∀ x, s.point x ≠ .absent → s.root x ≤ x
  outer : ∀ x, s.root x = x → s.before x = [] ∧ (s.point x).isInner = false
  coded : ∀ x, s.point x = .absent → s.code x = none

/-- The records of a coroutine are the same. -/
structure Beside (s s' : Program V E L) (x : FrameId) : Prop where
  code : s'.code x = s.code x
  caller : s'.caller x = s.caller x
  root : s'.root x = s.root x
  before : s'.before x = s.before x

variable {s s' : Program V E L}

theorem Follows.keep {x : FrameId} {m : Talk V E L (BodyEnd V E)} (h : Follows s x m)
    (hx : Beside s s' x) (hl : s'.log (s.root x) = s.log (s.root x)) : Follows s' x m := by
  obtain ⟨b, es, hb, hlog, hm⟩ := h
  exact ⟨b, es, hx.code.trans hb, by rw [hx.root, hx.before, hl, hlog], hm⟩

theorem Calls.keep {x c : FrameId} (h : Calls s x c) (hx : Beside s s' x) (hc : Beside s s' c) :
    Calls s' x c :=
  ⟨h.lt, hc.caller.trans h.caller, by rw [hc.root, hx.root, h.root]⟩

/-- The story of a coroutine goes on where its own events or the place of its callee change. -/
theorem Story.keep {x : FrameId} {p : Point V E L} (h : Story s x p) (hx : Beside s s' x)
    (hl : p.leads = true → s'.log (s.root x) = s.log (s.root x))
    (hc : ∀ c, p.callee = some c → Calls s x c → s.point c ≠ .absent → Beside s s' c ∧
      (s'.point c = s.point c ∨ (s.point c).isLive = true ∧ (s'.point c).isLive = true)) :
    Story s' x p := by
  cases p with
  | lazy b | rest b => exact Follows.keep h hx (hl rfl)
  | temporary b => exact hx.code.trans h
  | called c b k =>
      obtain ⟨hf, hcalls, hpoint⟩ := h
      obtain ⟨hbc, hsame | ⟨hst, -⟩⟩ := hc c rfl hcalls (by simp [hpoint])
      · exact ⟨hf.keep hx (hl rfl), hcalls.keep hx hbc, hsame.trans hpoint⟩
      · rw [hpoint] at hst
        cases hst
  | waiting c k =>
      obtain ⟨⟨b, d, es, hb, hd, hbefore, hm⟩, hcalls, hst⟩ := h
      obtain ⟨hbc, hpoint⟩ := hc c rfl hcalls (by intro ha; rw [ha] at hst; cases hst)
      refine ⟨⟨b, d, es, hx.code.trans hb, hbc.code.trans hd, ?_, hm⟩, hcalls.keep hx hbc, ?_⟩
      · rw [hbc.before, hx.before, hbefore]
      · rcases hpoint with hsame | ⟨-, hst'⟩
        · rwa [hsame]
        · exact hst'
  | leaving c r k =>
      obtain ⟨hf, hcalls, hpoint, e, rfl, hy⟩ := h
      obtain ⟨hbc, hsame | ⟨hst, -⟩⟩ := hc c rfl hcalls (by simp [hpoint])
      · exact ⟨hf.keep hx (hl rfl), hcalls.keep hx hbc, hsame.trans hpoint, e, rfl,
          hy.keep hbc (by rw [hcalls.root, hl rfl])⟩
      · rw [hpoint] at hst
        cases hst
  | ended e => exact Follows.keep h hx (hl rfl)
  | absent | reaped | aborted => trivial

/-- An event continues the story of the coroutine that makes it. -/
theorem Follows.next {x : FrameId} {m n : Talk V E L (BodyEnd V E)} {es : List (Event V E L)}
    (h : Follows s x m) (hx : Beside s s' x)
    (hl : s'.log (s.root x) = s.log (s.root x) ++ es) (hn : LeadsTo m es n) : Follows s' x n := by
  obtain ⟨b, fs, hb, hlog, hm⟩ := h
  refine ⟨b, fs ++ es, hx.code.trans hb, ?_, hm.trans hn⟩
  rw [hx.root, hx.before, hl, hlog, List.append_assoc]

namespace Program

/-! ## Moves of a body -/

/-- What a move of `f` does to the records. They change for a callee `d` of `f` only, where there is
    one, and the events only if it is the turn of `f`. The turn is passed between the two. -/
structure Moves (s s' : Program V E L) (f d : FrameId) : Prop where
  lt : f < d
  beside : ∀ x, x ≠ d → Beside s s' x
  point : ∀ x, x ≠ f → x ≠ d → s'.point x = s.point x
  log : (s.point f).leads = true ∧ (∀ ρ, ρ ≠ s.root f → s'.log ρ = s.log ρ) ∨ s'.log = s.log
  started : (s.point f).isLive = true ∧ (s'.point f).isLive = true
  callee : s.point d = .absent ∨ s.caller d = f
  place : s.point d = .absent ∧ s'.point d = .absent ∧ Beside s s' d ∨
    s'.point d ≠ .absent ∧ s'.root d = s.root f
  turn : (s.point f).leads = true ∨ (s.point d).leads = true ∧ s.root d = s.root f
  alone : (s'.point f).leads = false ∨ (s'.point d).leads = false

/-- The stories of the others go on. -/
theorem Told.others (t : s.Told) {f d : FrameId} (h : Moves s s' f d) {x : FrameId} (hf : x ≠ f)
    (hd : x ≠ d) : Story s' x (s'.point x) := by
  rw [h.point x hf hd]
  refine (t.story x).keep (h.beside x hd) (fun hl => ?_) fun c hc hcalls ha => ?_
  · rcases h.log with ⟨hlf, hlog⟩ | hlog
    · exact hlog _ fun hr => hf (t.single x f hl hlf hr)
    · rw [hlog]
  · -- the callee of another coroutine is not the callee of `f`, but it may be `f`
    have hcd : c ≠ d := by
      rintro rfl
      rcases h.callee with hab | hcaller
      · exact ha hab
      · exact hf (hcalls.caller.symm.trans hcaller)
    refine ⟨h.beside c hcd, ?_⟩
    by_cases hcf : c = f
    · subst hcf
      exact Or.inr h.started
    · exact Or.inl (h.point c hcf hcd)

/-- Whose turn it is after a move of `f`: that of `f` or of its callee, if it was before that of one
    of them, else of the same as before. -/
theorem Moves.leads {f d : FrameId} (h : Moves s s' f d) {x : FrameId}
    (hx : (s'.point x).leads = true) : ∃ y, (s.point y).leads = true ∧ s.root y = s'.root x ∧
      ((x = f ∨ x = d) ∧ (y = f ∨ y = d) ∨ x ≠ f ∧ x ≠ d ∧ y = x) := by
  by_cases hfd : x = f ∨ x = d
  · have hroot : s'.root x = s.root f := by
      by_cases hxd : x = d
      · subst hxd
        rcases h.place with ⟨-, ha, -⟩ | ⟨-, hr⟩
        · rw [ha] at hx
          cases hx
        · exact hr
      · rw [(h.beside x hxd).root, hfd.resolve_right hxd]
    rcases h.turn with hl | ⟨hl, hr⟩
    · exact ⟨f, hl, hroot.symm, Or.inl ⟨hfd, Or.inl rfl⟩⟩
    · exact ⟨d, hl, hr.trans hroot.symm, Or.inl ⟨hfd, Or.inr rfl⟩⟩
  · obtain ⟨hf, hd⟩ := not_or.mp hfd
    refine ⟨x, ?_, (h.beside x hd).root.symm, Or.inr ⟨hf, hd, rfl⟩⟩
    rwa [← h.point x hf hd]

theorem Told.of_moves (t : s.Told) {f d : FrameId} (h : Moves s s' f d)
    (hf : Story s' f (s'.point f)) (hd : Story s' d (s'.point d)) : s'.Told := by
  have hfa : s.point f ≠ .absent := by
    intro ha
    have hst := h.started.1
    rw [ha] at hst
    cases hst
  -- the callee has the outermost frame of `f`, which is not its own
  have hplace : s.point d = .absent ∧ s'.point d = .absent ∧ Beside s s' d ∨
      s'.point d ≠ .absent ∧ s'.root d < d := by
    refine h.place.imp_right fun ⟨hp, hr⟩ => ⟨hp, ?_⟩
    rw [hr]
    exact Nat.lt_of_le_of_lt (t.rooted f hfa) h.lt
  constructor
  · intro x
    by_cases hxf : x = f
    · rwa [hxf]
    by_cases hxd : x = d
    · rwa [hxd]
    · exact t.others h hxf hxd
  · intro x y hx hy hr
    obtain ⟨x₀, hx₀, hrx, hx'⟩ := h.leads hx
    obtain ⟨y₀, hy₀, hry, hy'⟩ := h.leads hy
    have hxy : x₀ = y₀ := t.single x₀ y₀ hx₀ hy₀ (by rw [hrx, hry, hr])
    have halone := h.alone
    grind
  · intro x hx
    by_cases hxd : x = d
    · subst hxd
      rcases hplace with ⟨-, ha, -⟩ | ⟨-, hlt⟩
      · exact absurd ha hx
      · exact Nat.le_of_lt hlt
    · rw [(h.beside x hxd).root]
      refine t.rooted x ?_
      by_cases hxf : x = f
      · rwa [hxf]
      · rwa [← h.point x hxf hxd]
  · intro x hx
    by_cases hxd : x = d
    · subst hxd
      rcases hplace with ⟨-, ha, hb⟩ | ⟨-, hlt⟩
      · rw [hb.before, ha]
        exact ⟨(t.outer x (hb.root.symm.trans hx)).1, rfl⟩
      · exact absurd hx (Nat.ne_of_lt hlt)
    · have hb := h.beside x hxd
      obtain ⟨hbefore, hinner⟩ := t.outer x (hb.root.symm.trans hx)
      refine ⟨hb.before.trans hbefore, ?_⟩
      by_cases hxf : x = f
      · subst hxf
        have hst := h.started.2
        cases hp : s'.point x <;> rw [hp] at hst <;> first | rfl | cases hst
      · rwa [h.point x hxf hxd]
  · intro x hx
    by_cases hxd : x = d
    · subst hxd
      rcases hplace with ⟨ha, -, hb⟩ | ⟨hp, -⟩
      · rw [hb.code, t.coded x ha]
      · exact absurd hx hp
    · rw [(h.beside x hxd).code]
      refine t.coded x ?_
      by_cases hxf : x = f
      · have hst := h.started.2
        rw [← hxf, hx] at hst
        cases hst
      · rwa [← h.point x hxf hxd]

/-! ## The turns -/

/-- What `f` does by itself: only its own place changes, and `es` is added to its events. -/
structure Alone (s s' : Program V E L) (f : FrameId) (es : List (Event V E L)) : Prop where
  beside : ∀ x, Beside s s' x
  point : ∀ x, x ≠ f → s'.point x = s.point x
  log : s'.log (s.root f) = s.log (s.root f) ++ es
  other : ∀ ρ, ρ ≠ s.root f → s'.log ρ = s.log ρ

theorem Alone.refl (s : Program V E L) (f : FrameId) : Alone s s f [] :=
  ⟨fun _ => ⟨rfl, rfl, rfl, rfl⟩, fun _ _ => rfl, by simp, fun _ _ => rfl⟩

theorem Alone.act {f : FrameId} {es : List (Event V E L)} (h : Alone s s' f es) (a : Action V E) :
    Alone s (s'.act a) f es :=
  ⟨fun x => ⟨(h.beside x).code, (h.beside x).caller, (h.beside x).root, (h.beside x).before⟩,
    h.point, h.log, h.other⟩

theorem Alone.goTo {f : FrameId} {es : List (Event V E L)} (h : Alone s s' f es)
    (q : Point V E L) : Alone s (s'.goTo f q) f es :=
  ⟨fun x => ⟨(h.beside x).code, (h.beside x).caller, (h.beside x).root, (h.beside x).before⟩,
    fun x hx => by rw [goTo_point, if_neg hx, h.point x hx], h.log, h.other⟩

theorem Alone.write {f : FrameId} {es : List (Event V E L)} (h : Alone s s' f es)
    (v : Event V E L) : Alone s (s'.write f v) f (es ++ [v]) := by
  refine ⟨fun x => ⟨(h.beside x).code, (h.beside x).caller, (h.beside x).root,
    (h.beside x).before⟩, h.point, ?_, fun ρ hρ => ?_⟩
  · rw [write_log, (h.beside f).root, if_pos rfl, h.log, List.append_assoc]
  · rw [write_log, (h.beside f).root, if_neg hρ, h.other ρ hρ]

/-- A body that goes on by itself continues its own story only. -/
theorem Told.goes_on (t : s.Told) (p : s.Placed) {f : FrameId} {m n : Talk V E L (BodyEnd V E)}
    {es : List (Event V E L)} (hst : (s.point f).isLive = true) (hl : (s.point f).leads = true)
    (hm : Follows s f m) (hn : LeadsTo m es n) (h : Alone s s' f es)
    (hp : (∃ b, s'.point f = .rest b ∧ n = b.run) ∨ ∃ e, s'.point f = .ended e ∧ n = pure e) :
    s'.Told := by
  have hlt : f < s.runtime.nextFrame := p.lt (by intro ha; rw [ha] at hst; cases hst)
  have hd : s.point s.runtime.nextFrame = .absent := p.absent _ (Nat.le_refl _)
  have hd' : s'.point s.runtime.nextFrame = .absent := (h.point _ (Nat.ne_of_gt hlt)).trans hd
  have hfn : Follows s' f n := hm.next (h.beside f) h.log hn
  have hst' : (s'.point f).isLive = true ∧ Story s' f (s'.point f) := by
    rcases hp with ⟨b, hp, rfl⟩ | ⟨e, hp, rfl⟩ <;> rw [hp] <;> exact ⟨rfl, hfn⟩
  -- the frame of no coroutine stands for the callee
  refine t.of_moves (d := s.runtime.nextFrame) ?_ hst'.2 (by rw [hd']; trivial)
  exact ⟨hlt, fun x _ => h.beside x, fun x hx _ => h.point x hx, Or.inl ⟨hl, h.other⟩,
    ⟨hst, hst'.1⟩, Or.inl hd, Or.inl ⟨hd, hd', h.beside _⟩, Or.inl hl, Or.inr (by rw [hd']; rfl)⟩

theorem Told.step_call (t : s.Told) (p : s.Placed) {f : FrameId} {o : Option OwnerId}
    {b : Body V E L} {k : Except E V → Body V E L} (hf : s.point f = .rest (.call o b k)) :
    (s.call f o b k).Told := by
  have hlt : f < s.runtime.nextFrame := p.lt (by simp [hf])
  have hd : s.point s.runtime.nextFrame = .absent := p.absent _ (Nat.le_refl _)
  have hstory := t.story f
  rw [hf] at hstory
  have hb : ∀ x, x ≠ s.runtime.nextFrame → Beside s (s.call f o b k) x := fun x hx =>
    ⟨Function.update_of_ne hx .., Function.update_of_ne hx .., Function.update_of_ne hx .., rfl⟩
  have hf' : (s.call f o b k).point f = .called s.runtime.nextFrame b k := by
    simp [call, Nat.ne_of_lt hlt]
  have hd' : (s.call f o b k).point s.runtime.nextFrame = .temporary b := by simp [call]
  refine t.of_moves (f := f) (d := s.runtime.nextFrame) ?_ ?_ ?_
  · refine ⟨hlt, hb, fun x hx hxd => by simp [call, hx, hxd], Or.inr rfl, ?_, Or.inl hd,
      Or.inr ⟨by simp [hd'], Function.update_self ..⟩, Or.inl (by rw [hf]; rfl),
      Or.inr (by rw [hd']; rfl)⟩
    rw [hf, hf']
    exact ⟨rfl, rfl⟩
  · rw [hf']
    refine ⟨Follows.keep hstory (hb f (Nat.ne_of_lt hlt)) rfl, ⟨hlt, Function.update_self .., ?_⟩,
      hd'⟩
    rw [(hb f (Nat.ne_of_lt hlt)).root]
    exact Function.update_self ..
  · rw [hd']
    exact Function.update_self ..

theorem Told.step_awaitCallee (t : s.Told) {f c : FrameId} {b : Body V E L}
    {k : Except E V → Body V E L} (hf : s.point f = .called c b k) :
    (s.awaitCallee f c b k).Told := by
  have hstory := t.story f
  rw [hf] at hstory
  obtain ⟨⟨b₀, es, hb₀, hlog, hm⟩, hcalls, hc⟩ := hstory
  have hcode : s.code c = some b := by
    have hstory := t.story c
    rwa [hc] at hstory
  have hne : f ≠ c := Nat.ne_of_lt hcalls.lt
  have hb : ∀ x, x ≠ c → Beside s (s.awaitCallee f c b k) x := fun x hx =>
    ⟨rfl, rfl, rfl, Function.update_of_ne hx ..⟩
  have hf' : (s.awaitCallee f c b k).point f = .waiting c k := by simp [awaitCallee, hne]
  have hc' : (s.awaitCallee f c b k).point c = .rest b := by simp [awaitCallee]
  have hbefore : (s.awaitCallee f c b k).before c = s.log (s.root f) ++ [.begins] :=
    Function.update_self ..
  refine t.of_moves (f := f) (d := c) ?_ ?_ ?_
  · refine ⟨hcalls.lt, hb, fun x hx hxc => by simp [awaitCallee, hx, hxc],
      Or.inl ⟨by rw [hf]; rfl, fun ρ hρ => by simp [awaitCallee, hρ]⟩, ?_, Or.inr hcalls.caller,
      Or.inr ⟨by simp [hc'], hcalls.root⟩, Or.inl (by rw [hf]; rfl), Or.inl (by rw [hf']; rfl)⟩
    rw [hf, hf']
    exact ⟨rfl, rfl⟩
  · rw [hf']
    refine ⟨⟨b₀, b, es, hb₀, hcode, ?_, hm⟩, ⟨hcalls.lt, hcalls.caller, hcalls.root⟩,
      by rw [hc']; rfl⟩
    rw [hbefore, (hb f hne).before, hlog]
  · rw [hc']
    refine ⟨b, [], hcode, ?_, .refl _⟩
    rw [hbefore, List.append_nil]
    simp [awaitCallee, hcalls.root]

/-- A coroutine whose frame is at its end has ended. -/
theorem Placed.ended (p : s.Placed) {c : FrameId} (hst : (s.point c).isLive = true)
    (hp : (s.runtime.frame c).phase.isFinalizing = true ∨ (s.runtime.frame c).phase = .parked) :
    ∃ e, s.point c = .ended e := by
  have hnot : (s.runtime.frame c).phase.isRunning = false ∧
      (s.runtime.frame c).phase.isWaiting = false ∧
      (s.runtime.frame c).phase.isOver = false := by
    cases hx : (s.runtime.frame c).phase <;> simp_all [Phase.isFinalizing, Phase.isRunning,
      Phase.isWaiting, Phase.isOver]
  have hc := p.coupled c
  cases hpoint : s.point c with
  | ended e => exact ⟨e, rfl⟩
  | lazy b =>
      rw [hpoint] at hc
      rcases hc.2.2 with hx | hx
      · rw [hx] at hp
        rcases hp with hp | hp <;> cases hp
      · rw [hnot.2.2] at hx
        cases hx
  | rest b =>
      rw [hpoint] at hc
      cases hc.2 <;> simp_all
  | called | leaving =>
      rw [hpoint] at hc
      exact absurd hc.2 (by simp [hnot.1])
  | waiting d k =>
      rw [hpoint] at hc
      cases hc.2 <;> simp_all
  | _ => rw [hpoint] at hst; cases hst

/-- A coroutine that takes the result of its callee takes what the body of the callee has left. -/
theorem Told.callee_ended (t : s.Told) (p : s.Placed) {f c : FrameId}
    {k : Except E V → Body V E L} (hf : s.point f = .waiting c k)
    (hen : s.runtime.Enabled (.awaitResume f)) (haw : (s.runtime.frame f).awaiter = .coro c) :
    ∃ e, s.point c = .ended e ∧ (s.runtime.frame c).result.get = some e.result := by
  obtain ⟨b, r⟩ := p.reachable.accounts
  have hstory := t.story f
  rw [hf] at hstory
  have hfits := r.custodian.fits c
  rw [r.custodian.reaps f c (r.custodian.active_of_running (Or.inr hen.1)) (by rw [haw]; rfl)]
    at hfits
  obtain ⟨e, hc⟩ := p.ended hstory.2.2 hfits.2.1
  have hcoupled := p.coupled c
  rw [hc] at hcoupled
  exact ⟨e, hc, by rw [hcoupled.2.result hfits.1, Outcome.get_finish]⟩

theorem Told.step_takeResult (t : s.Told) (p : s.Placed) {f c : FrameId}
    {k : Except E V → Body V E L} {v : Except E V} (hf : s.point f = .waiting c k)
    (hen : s.runtime.Enabled (.awaitResume f)) (haw : (s.runtime.frame f).awaiter = .coro c)
    (hres : (s.runtime.frame c).result.get = some v) :
    (((s.act (.awaitResume f)).goTo f (.leaving c v k)).goTo c .reaped).Told := by
  have hstory := t.story f
  rw [hf] at hstory
  obtain ⟨⟨b₀, d, es, hb₀, hd, hbefore, hm⟩, hcalls, hst⟩ := hstory
  have hne : f ≠ c := Nat.ne_of_lt hcalls.lt
  obtain ⟨e, hc, he⟩ := t.callee_ended p hf hen haw
  obtain rfl : v = e.result := Option.some.inj (hres.symm.trans he)
  have hyields := t.story c
  rw [hc] at hyields
  obtain ⟨d', fs, hd', hlog, hn⟩ := hyields
  obtain rfl : d = d' := Option.some.inj (hd.symm.trans hd')
  rw [hcalls.root] at hlog
  refine t.of_moves (f := f) (d := c) ?_ ?_ ?_
  · refine ⟨hcalls.lt, fun x _ => ⟨rfl, rfl, rfl, rfl⟩, fun x hx hxc => by simp [hx, hxc],
      Or.inr rfl, ?_, Or.inr hcalls.caller, Or.inr ⟨by simp, hcalls.root⟩,
      Or.inr ⟨by rw [hc]; rfl, hcalls.root⟩, Or.inr (by simp [Point.leads])⟩
    simp [hf, hne, Point.isLive]
  · simp only [goTo_point, if_neg hne, if_true]
    refine ⟨⟨b₀, es ++ ([.begins] ++ fs), hb₀, ?_, hm.awaited hn⟩,
      ⟨hcalls.lt, hcalls.caller, hcalls.root⟩, by simp, e, rfl, d, fs, hd, ?_, hn⟩
    · simpa [hbefore] using hlog
    · simpa [hcalls.root] using hlog
  · simp [Story]

theorem Told.step_turn (t : s.Told) (p : s.Placed) {f : FrameId} (h : Turn s f s') : s'.Told := by
  have hstory := t.story f
  have hself := Alone.refl s f
  cases h with
  | finish e hf hen =>
      rw [hf] at hstory
      exact t.goes_on p (by rw [hf]; rfl) (by rw [hf]; rfl) hstory (.refl _)
        ((hself.act _).goTo _) (Or.inr ⟨e, by simp, rfl⟩)
  | effect y b hf hin =>
      rw [hf] at hstory
      exact t.goes_on p (by rw [hf]; rfl) (by rw [hf]; rfl) hstory (.tell rfl _)
        ((hself.write _).goTo _) (Or.inl ⟨b, by simp, rfl⟩)
  | call o b k hf hin hen => exact t.step_call p hf
  | opens b a hf ha hen =>
      rw [hf] at hstory
      exact t.goes_on p (by rw [hf]; rfl) (by rw [hf]; rfl) hstory (.refl _) (hself.act _)
        (Or.inl ⟨b, by simp [hf], rfl⟩)
  | awaitCallee c b k hf hen => exact t.step_awaitCallee hf
  | takeResult c k v hf hen haw hres => exact t.step_takeResult p hf hen haw hres
  | destroyCallee c v k hf hin hen =>
      rw [hf] at hstory
      exact t.goes_on p (by rw [hf]; rfl) (by rw [hf]; rfl) hstory.1 (.handedOver v k)
        ((((hself.act _).write _).write _).goTo _) (Or.inl ⟨k v, by simp [destroyCallee], rfl⟩)
  | takeAnswer b k v hf hb hen =>
      rw [hf] at hstory
      have hm : LeadsTo b.run [.result v] (k v).run := by
        rcases hb with rfl | rfl <;> exact .ask rfl _
      exact t.goes_on p (by rw [hf]; rfl) (by rw [hf]; rfl) hstory hm
        (((hself.act _).write _).goTo _) (Or.inl ⟨k v, by simp, rfl⟩)
  | expired k v hf hin =>
      rw [hf] at hstory
      exact t.goes_on p (by rw [hf]; rfl) (by rw [hf]; rfl) hstory (.ask rfl _)
        ((hself.write _).goTo _) (Or.inl ⟨k v, by simp, rfl⟩)
  | hopped how ex b hf hen =>
      rw [hf] at hstory
      exact t.goes_on p (by rw [hf]; rfl) (by rw [hf]; rfl) hstory (.tell rfl _)
        (((hself.act _).write _).goTo _) (Or.inl ⟨b, by simp, rfl⟩)

/-! ## Steps -/

theorem Told.act (t : s.Told) (a : Action V E) : (s.act a).Told :=
  ⟨fun x => (t.story x).keep ⟨rfl, rfl, rfl, rfl⟩ (fun _ => rfl)
    fun _ _ _ _ => ⟨⟨rfl, rfl, rfl, rfl⟩, Or.inl rfl⟩, t.single, t.rooted, t.outer, t.coded⟩

/-- A coroutine that is called from outside is its own outermost frame. -/
theorem Told.launch (t : s.Told) (p : s.Placed) {a : Action V E} {q : Point V E L}
    {b : Body V E L} (hq : q = .lazy b ∨ q = .rest b) : (s.launch a q b).Told := by
  have hd : s.point s.runtime.nextFrame = .absent := p.absent _ (Nat.le_refl _)
  have hq' : q.isInner = false ∧ q ≠ .absent := by
    rcases hq with rfl | rfl <;> exact ⟨rfl, nofun⟩
  have hpoint : ∀ x, x ≠ s.runtime.nextFrame → (s.launch a q b).point x = s.point x :=
    fun x hx => Function.update_of_ne hx ..
  have hb : ∀ x, x ≠ s.runtime.nextFrame → Beside s (s.launch a q b) x := fun x hx =>
    ⟨Function.update_of_ne hx .., rfl, Function.update_of_ne hx .., Function.update_of_ne hx ..⟩
  have hroot : (s.launch a q b).root s.runtime.nextFrame = s.runtime.nextFrame :=
    Function.update_self ..
  have hnew : (s.launch a q b).point s.runtime.nextFrame = q := Function.update_self ..
  -- the outermost frames of the others are older
  have hold : ∀ x, s.point x ≠ .absent → s.root x < s.runtime.nextFrame := fun x hx =>
    Nat.lt_of_le_of_lt (t.rooted x hx) (p.lt hx)
  constructor
  · intro x
    by_cases hx : x = s.runtime.nextFrame
    · subst hx
      have hf : Follows (s.launch a q b) s.runtime.nextFrame b.run := by
        refine ⟨b, [], Function.update_self .., ?_, .refl _⟩
        rw [hroot]
        simp [Program.launch]
      rw [hnew]
      rcases hq with rfl | rfl <;> exact hf
    · rw [hpoint x hx]
      refine (t.story x).keep (hb x hx) (fun hl => ?_) fun c _ _ hc => ?_
      · have hxa : s.point x ≠ .absent := by intro ha; rw [ha] at hl; cases hl
        exact Function.update_of_ne (Nat.ne_of_lt (hold x hxa)) ..
      · have hcn : c ≠ s.runtime.nextFrame := by rintro rfl; exact hc hd
        exact ⟨hb c hcn, Or.inl (hpoint c hcn)⟩
  · intro x y hx hy hr
    have hother : ∀ x, x ≠ s.runtime.nextFrame → ((s.launch a q b).point x).leads = true →
        (s.point x).leads = true ∧ (s.launch a q b).root x = s.root x ∧
          s.root x < s.runtime.nextFrame := by
      intro x hxn hx
      rw [hpoint x hxn] at hx
      exact ⟨hx, (hb x hxn).root, hold x (by intro ha; rw [ha] at hx; cases hx)⟩
    by_cases hxn : x = s.runtime.nextFrame
    · by_cases hyn : y = s.runtime.nextFrame
      · rw [hxn, hyn]
      · obtain ⟨-, hry, hlt⟩ := hother y hyn hy
        rw [hxn, hroot, hry] at hr
        exact absurd hr.symm (Nat.ne_of_lt hlt)
    · obtain ⟨hlx, hrx, hlt⟩ := hother x hxn hx
      by_cases hyn : y = s.runtime.nextFrame
      · rw [hyn, hroot, hrx] at hr
        exact absurd hr (Nat.ne_of_lt hlt)
      · obtain ⟨hly, hry, -⟩ := hother y hyn hy
        exact t.single x y hlx hly (by rw [← hrx, ← hry, hr])
  · intro x hx
    by_cases hxn : x = s.runtime.nextFrame
    · rw [hxn, hroot]
    · rw [(hb x hxn).root]
      exact t.rooted x (by rwa [← hpoint x hxn])
  · intro x hx
    by_cases hxn : x = s.runtime.nextFrame
    · subst hxn
      rw [hnew]
      exact ⟨Function.update_self .., hq'.1⟩
    · rw [(hb x hxn).before, hpoint x hxn]
      exact t.outer x ((hb x hxn).root.symm.trans hx)
  · intro x hx
    by_cases hxn : x = s.runtime.nextFrame
    · rw [hxn, hnew] at hx
      exact absurd hx hq'.2
    · rw [(hb x hxn).code]
      exact t.coded x (by rwa [← hpoint x hxn])

theorem entry_eq (a : Action V E) (b : Body V E L) : entry b a = .lazy b ∨ entry b a = .rest b := by
  cases a <;> first | exact Or.inl rfl | exact Or.inr rfl

theorem Told.step_around (t : s.Told) (p : s.Placed) {a : Action V E} (h : s.Enabled (.around a)) :
    (s.next (.around a)).Told := by
  cases a with
  | startAwait u c =>
      -- a promise that is awaited from outside begins
      obtain ⟨b, hc⟩ := Point.isLazy_iff.mp h.1
      have hstory := t.story c
      rw [hc] at hstory
      exact t.goes_on p (by rw [hc]; rfl) (by rw [hc]; rfl) hstory (.refl _)
        (((Alone.refl s c).act _).goTo _) (Or.inl ⟨b, by simp [Program.next, hc, Point.start], rfl⟩)
  | _ => exact t.act _

theorem Told.step (t : s.Told) (p : s.Placed) {m : Step V E L} (h : s.Enabled m) :
    (s.next m).Told := by
  cases m with
  | launch a b => exact t.launch p (entry_eq a b)
  | advance f => exact t.step_turn p (p.turn h)
  | ready f v => exact t.step_turn p (turn_ready h)
  | around a => exact t.step_around p h

end Program

end WebAsio.Coro.Direct
