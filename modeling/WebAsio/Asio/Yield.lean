import WebAsio.Library.Switch

set_option autoImplicit false

/-! # `WEBASIO_YIELD`: operations written as one `switch`

The macro stores the label, returns what the initiation gives and puts the `case` label behind that.
An operation written with it does what its body would do as a coroutine that awaits the initiations,
whenever and wherever their completions call it again: the label is stored before the initiation, so
it may complete inside it, and nothing of a call is executed behind it. -/

namespace WebAsio.Asio

open Transition Switch

variable {S I L A : Type*}

/-- `WEBASIO_YIELD(resume_var, resume_point, ...)`. `WEBASIO_YIELD_VOID` differs in the value that
    is returned to the initiating function, which nothing uses. -/
def webasioYield (resumePoint : L) (initiation : S → I) : Stmt S I L :=
  .once (.seq (.assign resumePoint)
    (.seq (.ret initiation) (.seq (.case resumePoint) .skip)))

namespace Yield

/-- The body of an operation, with the macro where it waits. -/
def written : Body S I L → Stmt S I L
  | .skip => .skip
  | .act f => .act f
  | .seq b c => .seq (written b) (written c)
  | .cond t b c => .cond t (written b) (written c)
  | .loop t b => .loop t (written b)
  | .await p i => webasioYield p i

/-- `switch (state_) { case state::start: ... }` -/
def operation (start : L) (b : Body S I L) : Stmt S I L := .seq (.case start) (written b)

variable [DecidableEq L]

theorem behind_of_not_mem {b : Body S I L} {p : L} (h : p ∉ b.labels) :
    (written b).behind p = none := by
  induction b with
  | skip => rfl
  | act f => rfl
  | seq b c ihb ihc =>
      obtain ⟨hb, hc⟩ := not_or.mp (mt List.mem_append.mpr h)
      simp only [written, Stmt.behind, ihb hb, ihc hc]
  | cond t b c ihb ihc =>
      obtain ⟨hb, hc⟩ := not_or.mp (mt List.mem_append.mpr h)
      simp only [written, Stmt.behind, ihb hb, ihc hc]
  | loop t b ih => simp only [written, Stmt.behind, ih h, Option.map_none]
  | await q i =>
      have hne : q ≠ p := fun hq => h (List.mem_singleton.mpr hq.symm)
      simp only [written, webasioYield, Stmt.behind, if_neg hne]

/-- The jump to the label of an `await` leads to what the coroutine has left there. -/
theorem behind_await {b : Body S I L} {p : L} {i : S → I} {k : List (Body S I L)}
    (hl : b.labels.Nodup) (hw : b.Within (.await p i :: k)) :
    (written b).behind p = some (.skip :: k.map written) := by
  generalize hk : Body.await p i :: k = l at hw
  induction hw generalizing k with
  | start b =>
      obtain ⟨rfl, rfl⟩ := List.cons.inj hk
      simp [written, webasioYield, Stmt.behind]
  | past b => cases hk
  | @first b c k₀ hw ih =>
      obtain ⟨hb, -, hdisjoint⟩ := List.nodup_append'.mp hl
      cases k₀ with
      | nil =>
          obtain ⟨rfl, rfl⟩ := List.cons.inj hk
          have hp : p ∉ b.labels := fun hp =>
            hdisjoint hp (List.mem_singleton.mpr rfl)
          simp [written, Stmt.behind, behind_of_not_mem hp, webasioYield]
      | cons h₀ k₁ =>
          obtain ⟨rfl, rfl⟩ := List.cons.inj hk
          simp [written, Stmt.behind, ih hb rfl]
  | second hw ih =>
      obtain ⟨-, hc, hdisjoint⟩ := List.nodup_append'.mp hl
      subst hk
      have hp := fun hp => hdisjoint hp hw.mem_labels
      simp [written, Stmt.behind, behind_of_not_mem hp, ih hc rfl]
  | yes hw ih =>
      obtain ⟨hb, -, -⟩ := List.nodup_append'.mp hl
      simp [written, Stmt.behind, ih hb hk]
  | no hw ih =>
      obtain ⟨-, hc, hdisjoint⟩ := List.nodup_append'.mp hl
      subst hk
      have hp := fun hp => hdisjoint hp hw.mem_labels
      simp [written, Stmt.behind, behind_of_not_mem hp, ih hc rfl]
  | @again t b k₀ hw ih =>
      cases k₀ with
      | nil => cases hk
      | cons h₀ k₁ =>
          obtain ⟨rfl, rfl⟩ := List.cons.inj hk
          simp [written, Stmt.behind, ih hl rfl]
  | answered hw ih => cases hk

/-! ## The operation and its coroutine -/

/-- What is left of the macro when the label is stored. -/
def returns (p : L) (i : S → I) : Stmt S I L := .seq (.ret i) (.seq (.case p) .skip)

/-- Where the operation and the coroutine stand. -/
inductive Agrees (body : Stmt S I L) (b : Body S I L) : Waiter S I L → Caller S I L → Prop
  | here {x : S} {k : List (Body S I L)} {p : L} {n : ℕ} (h : b.Within k) :
      Agrees body b ⟨x, k, none⟩ ⟨p, x, k.map written, none, n⟩
  | opened {x : S} {k : List (Body S I L)} {p q : L} {i : S → I} {n : ℕ}
      (h : b.Within (.await q i :: k)) : Agrees body b ⟨x, .await q i :: k, none⟩
        ⟨p, x, .seq (.assign q) (returns q i) :: k.map written, none, n⟩
  | saving {x : S} {k : List (Body S I L)} {p q : L} {i : S → I} {n : ℕ}
      (h : b.Within (.await q i :: k)) : Agrees body b ⟨x, .await q i :: k, none⟩
        ⟨p, x, .assign q :: returns q i :: k.map written, none, n⟩
  | saved {x : S} {k : List (Body S I L)} {q : L} {i : S → I} {n : ℕ}
      (h : b.Within (.await q i :: k)) : Agrees body b ⟨x, .await q i :: k, none⟩
        ⟨q, x, returns q i :: k.map written, none, n⟩
  | returning {x : S} {k : List (Body S I L)} {q : L} {i : S → I} {n : ℕ}
      (h : b.Within (.await q i :: k)) : Agrees body b ⟨x, .await q i :: k, none⟩
        ⟨q, x, .ret i :: .seq (.case q) .skip :: k.map written, none, n⟩
  | waiting {x : S} {k : List (Body S I L)} {q : L} {j : I} {n : ℕ} (h : b.Within (.skip :: k))
      (hjump : body.behind q = some (.skip :: k.map written)) :
      Agrees body b ⟨x, .skip :: k, some j⟩ ⟨q, x, [], some j, n⟩

theorem Agrees.view {body : Stmt S I L} {b : Body S I L} {u : Waiter S I L} {t : Caller S I L}
    (h : Agrees body b u t) : t.object = u.object ∧ t.status = u.status := by
  cases h with
  | @here x k p n h => cases k <;> exact ⟨rfl, rfl⟩
  | _ => exact ⟨rfl, rfl⟩

omit [DecidableEq L] in
theorem written_expand {h : Body S I L} (hh : ∀ p i, h ≠ .await p i) (x : S) :
    (written h).expand x = (h.expand x).map written ∧ (written h).effect x = h.effect x := by
  cases h with
  | await p i => exact absurd rfl (hh p i)
  | cond t b c =>
      simp only [written, Stmt.expand, Body.expand]
      split_ifs <;> exact ⟨rfl, rfl⟩
  | loop t b =>
      simp only [written, Stmt.expand, Body.expand]
      split_ifs <;> exact ⟨rfl, rfl⟩
  | _ => exact ⟨rfl, rfl⟩

variable {b : Body S I L} {start : L} {enter : I → A → S → S} {u u' : Waiter S I L}
  {t t' : Caller S I L}

theorem behind_operation (hl : (start :: b.labels).Nodup) {q : L} {i : S → I}
    {k : List (Body S I L)} (hw : b.Within (.await q i :: k)) :
    (operation start b).behind q = some (.skip :: k.map written) := by
  obtain ⟨hstart, hb⟩ := List.nodup_cons.mp hl
  have hne : start ≠ q := fun h => hstart (h ▸ hw.mem_labels)
  simp only [operation, Stmt.behind, if_neg hne, behind_await hb hw]

omit [DecidableEq L] in
/-- A statement that does not wait is executed alike by both. -/
theorem step_written {h : Body S I L} (hne : ∀ p i, h ≠ .await p i) (x : S)
    (k : List (Body S I L)) (p : L) (n : ℕ) :
    (⟨x, h :: k, none⟩ : Waiter S I L).step = ⟨h.effect x, h.expand x ++ k, none⟩ ∧
      (⟨p, x, (h :: k).map written, none, n⟩ : Caller S I L).step =
        ⟨p, h.effect x, (h.expand x ++ k).map written, none, n⟩ := by
  obtain ⟨hexpand, heffect⟩ := written_expand hne x
  rw [List.map_append, ← hexpand, ← heffect]
  cases h with
  | await q i => exact absurd rfl (hne q i)
  | _ => exact ⟨rfl, rfl⟩

/-- What the operation does, the coroutine does with one step at most. -/
theorem Agrees.forward (hl : (start :: b.labels).Nodup)
    (h : Agrees (operation start b) b u t) {a : Action A} (ha : t.Enabled a) :
    ∃ as u', Run (Waiter.machine enter) u as u' ∧ answers as = answers [a] ∧
      Agrees (operation start b) b u' (t.next (operation start b) enter a) := by
  have hstay : ∀ {u t'}, answers [a] = [] → Agrees (operation start b) b u t' →
      ∃ as u', Run (Waiter.machine enter) u as u' ∧ answers as = answers [a] ∧
        Agrees (operation start b) b u' t' :=
    fun hnone hagree => ⟨[], _, .nil _, hnone.symm, hagree⟩
  cases a with
  | leave => cases h <;> exact hstay rfl (by constructor <;> assumption)
  | resume a =>
      cases h with
      | waiting hw hjump =>
          refine ⟨[.resume a], _, .cons (Option.some_ne_none _) (.nil _), rfl, ?_⟩
          simp only [Caller.next, hjump, Option.getD_some]
          exact Agrees.here hw
      | _ => exact absurd rfl ha
  | step =>
      cases h with
      | waiting hw hjump => exact absurd ha.1 (Option.some_ne_none _)
      | opened hw => exact hstay rfl (.saving hw)
      | saving hw => exact hstay rfl (.saved hw)
      | saved hw => exact hstay rfl (.returning hw)
      | returning hw =>
          refine ⟨[.step], _, .cons ⟨rfl, List.cons_ne_nil _ _⟩ (.nil _), rfl, ?_⟩
          exact Agrees.waiting hw.answered (behind_operation hl hw)
      | @here x k p n hw =>
          cases k with
          | nil => exact absurd rfl ha.2
          | cons h k =>
              by_cases hawait : ∃ q i, h = .await q i
              · obtain ⟨q, i, rfl⟩ := hawait
                exact hstay rfl (.opened hw)
              · obtain ⟨hwaiter, hcaller⟩ :=
                  step_written (fun q i hh => hawait ⟨q, i, hh⟩) x k p n
                refine ⟨[.step], _, .cons ⟨rfl, List.cons_ne_nil _ _⟩ (.nil _), rfl, ?_⟩
                simp only [Caller.next, Waiter.machine, Waiter.next, hwaiter, hcaller]
                exact Agrees.here (hw.step x)

/-- The operation comes to the initiation, with the label stored. -/
theorem Agrees.initiates {x : S} {q : L} {i : S → I} {k : List (Body S I L)}
    (hl : (start :: b.labels).Nodup)
    (h : Agrees (operation start b) b ⟨x, .await q i :: k, none⟩ t) :
    ∃ as t', Run (Caller.machine (operation start b) enter) t as t' ∧ answers as = [] ∧
      Agrees (operation start b) b ⟨x, .skip :: k, some (i x)⟩ t' := by
  have hnext : ∀ {t : Caller S I L} {as : List (Action A)} {t'}, t.Enabled (.step : Action A) →
      Run (Caller.machine (operation start b) enter) t.step as t' →
        Run (Caller.machine (operation start b) enter) t (.step :: as) t' :=
    fun hen hrun => .cons hen hrun
  have hwithin : b.Within (.await q i :: k) := by
    cases h <;> assumption
  have hgoal : ∀ n, Agrees (operation start b) b ⟨x, .skip :: k, some (i x)⟩
      ⟨q, x, [], some (i x), n + 1⟩ :=
    fun n => .waiting hwithin.answered (behind_operation hl hwithin)
  have hreturning : ∀ n, Run (Caller.machine (operation start b) enter)
      ⟨q, x, .ret i :: .seq (.case q) .skip :: k.map written, none, n⟩ [.step]
      ⟨q, x, [], some (i x), n + 1⟩ :=
    fun n => hnext ⟨rfl, List.cons_ne_nil _ _⟩ (.nil _)
  have hsaved : ∀ n, Run (Caller.machine (operation start b) enter)
      ⟨q, x, returns q i :: k.map written, none, n⟩ [.step, .step] ⟨q, x, [], some (i x), n + 1⟩ :=
    fun n => hnext ⟨rfl, List.cons_ne_nil _ _⟩ (hreturning n)
  have hsaving : ∀ p n, Run (Caller.machine (operation start b) enter)
      ⟨p, x, .assign q :: returns q i :: k.map written, none, n⟩ [.step, .step, .step]
      ⟨q, x, [], some (i x), n + 1⟩ :=
    fun p n => hnext ⟨rfl, List.cons_ne_nil _ _⟩ (hsaved n)
  have hopened : ∀ p n, Run (Caller.machine (operation start b) enter)
      ⟨p, x, .seq (.assign q) (returns q i) :: k.map written, none, n⟩ [.step, .step, .step, .step]
      ⟨q, x, [], some (i x), n + 1⟩ :=
    fun p n => hnext ⟨rfl, List.cons_ne_nil _ _⟩ (hsaving p n)
  cases h with
  | here _ => exact ⟨_, _, hnext ⟨rfl, List.cons_ne_nil _ _⟩ (hopened _ _), rfl, hgoal _⟩
  | opened _ => exact ⟨_, _, hopened _ _, rfl, hgoal _⟩
  | saving _ => exact ⟨_, _, hsaving _ _, rfl, hgoal _⟩
  | saved _ => exact ⟨_, _, hsaved _, rfl, hgoal _⟩
  | returning _ => exact ⟨_, _, hreturning _, rfl, hgoal _⟩

/-- What the coroutine does, the operation does with some more steps. -/
theorem Agrees.backward (hl : (start :: b.labels).Nodup)
    (h : Agrees (operation start b) b u t) {a : Action A} (ha : u.Enabled a) :
    ∃ as t', Run (Caller.machine (operation start b) enter) t as t' ∧
      answers as = answers [a] ∧ Agrees (operation start b) b (u.next enter a) t' := by
  cases a with
  | leave => exact absurd ha id
  | resume a =>
      cases h with
      | @waiting x k q j n hw hjump =>
          refine ⟨[.resume a], _, .cons (Option.some_ne_none _) (.nil _), rfl, ?_⟩
          simp only [Caller.machine, Caller.next, hjump, Option.getD_some]
          exact Agrees.here hw
      | _ => exact absurd rfl ha
  | step =>
      cases h with
      | waiting hw hjump => exact absurd ha.1 (Option.some_ne_none _)
      | @here x k p n hw =>
          cases k with
          | nil => exact absurd rfl ha.2
          | cons h k =>
              by_cases hawait : ∃ q i, h = .await q i
              · obtain ⟨q, i, rfl⟩ := hawait
                exact Agrees.initiates hl (.here hw)
              · obtain ⟨hwaiter, hcaller⟩ :=
                  step_written (fun q i hh => hawait ⟨q, i, hh⟩) x k p n
                refine ⟨[.step], _, .cons ⟨rfl, List.cons_ne_nil _ _⟩ (.nil _), rfl, ?_⟩
                simp only [Caller.machine, Caller.next, Waiter.next, hwaiter, hcaller]
                exact Agrees.here (hw.step x)
      | opened hw => exact Agrees.initiates hl (.opened hw)
      | saving hw => exact Agrees.initiates hl (.saving hw)
      | saved hw => exact Agrees.initiates hl (.saved hw)
      | returning hw => exact Agrees.initiates hl (.returning hw)

theorem Agrees.run_forward (hl : (start :: b.labels).Nodup) {as : List (Action A)}
    (hrun : Run (Caller.machine (operation start b) enter) t as t')
    (h : Agrees (operation start b) b u t) :
    ∃ bs u', Run (Waiter.machine enter) u bs u' ∧ answers bs = answers as ∧
      Agrees (operation start b) b u' t' := by
  induction hrun generalizing u with
  | nil t => exact ⟨[], u, .nil u, rfl, h⟩
  | @cons t t' a as ha _ ih =>
      obtain ⟨bs, u₁, hbs, hanswers, h₁⟩ := h.forward hl ha
      obtain ⟨cs, u₂, hcs, hanswers', h₂⟩ := ih h₁
      refine ⟨bs ++ cs, u₂, hbs.append hcs, ?_, h₂⟩
      rw [answers_append, answers_cons a as, hanswers, hanswers']

theorem Agrees.run_backward (hl : (start :: b.labels).Nodup) {as : List (Action A)}
    (hrun : Run (Waiter.machine enter) u as u') (h : Agrees (operation start b) b u t) :
    ∃ bs t', Run (Caller.machine (operation start b) enter) t bs t' ∧
      answers bs = answers as ∧ Agrees (operation start b) b u' t' := by
  induction hrun generalizing t with
  | nil u => exact ⟨[], t, .nil t, rfl, h⟩
  | @cons u u' a as ha _ ih =>
      obtain ⟨bs, t₁, hbs, hanswers, h₁⟩ := h.backward hl ha
      obtain ⟨cs, t₂, hcs, hanswers', h₂⟩ := ih h₁
      refine ⟨bs ++ cs, t₂, hbs.append hcs, ?_, h₂⟩
      rw [answers_append, answers_cons a as, hanswers, hanswers']

theorem agrees_start (b : Body S I L) (start : L) (x : S) :
    Agrees (operation start b) b (Waiter.start b x) (Caller.start (operation start b) start x) := by
  have hjump : (operation start b).behind start = some [written b] := by
    simp [operation, Stmt.behind]
  rw [Caller.start, hjump]
  exact Agrees.here (.start b)

end Yield

/-- **An operation written with the macro is its coroutine.** Under every order of calls and
    returns, with completions inside the initiations and on other threads, it comes with the same
    answers to the same objects, initiations and ends. -/
theorem yield_exact {b : Body S I L} {start : L} [DecidableEq L] (hl : (start :: b.labels).Nodup)
    (enter : I → A → S → S) (x y : S) (answered : List A) (status : Status I) :
    (∃ as t, Run (Caller.machine (Yield.operation start b) enter)
        (Caller.start (Yield.operation start b) start x) as t ∧
        answers as = answered ∧ t.object = y ∧ t.status = status) ↔
      ∃ as u, Run (Waiter.machine enter) (Waiter.start b x) as u ∧
        answers as = answered ∧ u.object = y ∧ u.status = status := by
  have hstart := Yield.agrees_start b start x
  constructor
  · rintro ⟨as, t, hrun, rfl, rfl, rfl⟩
    obtain ⟨bs, u, hbs, hanswers, h⟩ := hstart.run_forward hl hrun
    exact ⟨bs, u, hbs, hanswers, h.view.1.symm, h.view.2.symm⟩
  · rintro ⟨as, u, hrun, rfl, rfl, rfl⟩
    obtain ⟨bs, t, hbs, hanswers, h⟩ := hstart.run_backward hl hrun
    exact ⟨bs, t, hbs, hanswers, h.view.1, h.view.2⟩

/-- Waits once, and counts. -/
def waitsOnce : Body ℕ ℕ Bool := .seq (.await true id) (.act (· + 1))

/-- The operation is called again before its first call has returned. -/
theorem yield_exact_inside :
    ∃ as u, Run (Waiter.machine fun _ (a : ℕ) (_ : ℕ) => a) (Waiter.start waitsOnce 3) as u ∧
        answers as = [7] ∧ u.object = 8 ∧ u.status = .finished :=
  (yield_exact (by decide : (false :: waitsOnce.labels).Nodup) _ 3 8 [7] .finished).mp
    ⟨[.step, .step, .step, .step, .step, .step, .resume 7, .step, .leave, .step], _,
      .of_legal (by decide), rfl, rfl, rfl⟩

end WebAsio.Asio
