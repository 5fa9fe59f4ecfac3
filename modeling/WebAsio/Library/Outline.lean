import WebAsio.Library.Switch

set_option autoImplicit false

/-! # Proof outlines for functions that wait

Rules of pre- and postconditions for the bodies of `Switch`. Conditions speak of the answers so far
and of the object. A function that waits also keeps a promise `W` wherever it does, about the
answers, what it has initiated and the object. `Outline.sound` is about every run, also one that is
not over. -/

namespace Switch

open Transition

variable {S I L A : Type*}

abbrev Condition (S A : Type*) := List A → S → Prop

/-- `{P} b {Q}`, where the answer `a` to `i` is stored by `enter`. -/
inductive Outline (enter : I → A → S → S) (W : List A → I → S → Prop) :
    Condition S A → Body S I L → Condition S A → Prop
  | skip (P : Condition S A) : Outline enter W P .skip P
  | act (f : S → S) (Q : Condition S A) : Outline enter W (fun rs x => Q rs (f x)) (.act f) Q
  | seq {P M Q : Condition S A} {b c : Body S I L} (hb : Outline enter W P b M)
      (hc : Outline enter W M c Q) : Outline enter W P (.seq b c) Q
  | cond {P Q : Condition S A} {t : S → Bool} {b c : Body S I L}
      (hb : Outline enter W (fun rs x => P rs x ∧ t x = true) b Q)
      (hc : Outline enter W (fun rs x => P rs x ∧ t x = false) c Q) :
      Outline enter W P (.cond t b c) Q
  | loop {P : Condition S A} {t : S → Bool} {b : Body S I L}
      (hb : Outline enter W (fun rs x => P rs x ∧ t x = true) b P) :
      Outline enter W P (.loop t b) fun rs x => P rs x ∧ t x = false
  | await {P Q : Condition S A} {p : L} {i : S → I} (hW : ∀ rs x, P rs x → W rs (i x) x)
      (hQ : ∀ rs x a, P rs x → Q (rs ++ [a]) (enter (i x) a x)) : Outline enter W P (.await p i) Q
  | weaken {P P' Q Q' : Condition S A} {b : Body S I L} (hP : ∀ rs x, P' rs x → P rs x)
      (h : Outline enter W P b Q) (hQ : ∀ rs x, Q rs x → Q' rs x) : Outline enter W P' b Q'

/-- The outlines of the statements that are left. -/
inductive Outlines (enter : I → A → S → S) (W : List A → I → S → Prop) :
    Condition S A → List (Body S I L) → Condition S A → Prop
  | nil {P Q : Condition S A} (h : ∀ rs x, P rs x → Q rs x) : Outlines enter W P [] Q
  | cons {P M Q : Condition S A} {b : Body S I L} {k : List (Body S I L)}
      (hb : Outline enter W P b M) (hk : Outlines enter W M k Q) : Outlines enter W P (b :: k) Q

variable {enter : I → A → S → S} {W : List A → I → S → Prop} {P M Q : Condition S A}

theorem Outlines.weaken {k : List (Body S I L)} (hk : Outlines enter W P k M)
    (hQ : ∀ rs x, M rs x → Q rs x) : Outlines enter W P k Q := by
  induction hk with
  | nil h => exact .nil fun rs x hx => hQ rs x (h rs x hx)
  | cons hb _ ih => exact .cons hb (ih hQ)

theorem Outlines.append {k l : List (Body S I L)} (hk : Outlines enter W P k M)
    (hl : Outlines enter W M l Q) : Outlines enter W P (k ++ l) Q := by
  induction hk with
  | nil h =>
      cases hl with
      | nil h' => exact .nil fun rs x hx => h' rs x (h rs x hx)
      | cons hb hk => exact .cons (.weaken h hb fun _ _ => id) hk
  | cons hb _ ih => exact .cons hb (ih hl)

/-- One step of a statement that does not wait leads to an outline of what it leaves. -/
theorem Outline.expand {b : Body S I L} (h : Outline enter W P b Q) (hne : ∀ p i, b ≠ .await p i)
    {rs : List A} {x : S} (hx : P rs x) :
    ∃ P', P' rs (b.effect x) ∧ Outlines enter W P' (b.expand x) Q := by
  induction h with
  | skip P => exact ⟨P, hx, .nil fun _ _ => id⟩
  | act f Q => exact ⟨Q, hx, .nil fun _ _ => id⟩
  | @seq P M Q b c hb hc => exact ⟨P, hx, .cons hb (.cons hc (.nil fun _ _ => id))⟩
  | @cond P Q t b c hb hc =>
      by_cases ht : t x = true
      · refine ⟨fun rs x => P rs x ∧ t x = true, ⟨hx, ht⟩, ?_⟩
        simp only [Body.expand, if_pos ht]
        exact .cons hb (.nil fun _ _ => id)
      · refine ⟨fun rs x => P rs x ∧ t x = false, ⟨hx, Bool.eq_false_iff.mpr ht⟩, ?_⟩
        simp only [Body.expand, if_neg ht]
        exact .cons hc (.nil fun _ _ => id)
  | @loop P t b hb =>
      by_cases ht : t x = true
      · refine ⟨fun rs x => P rs x ∧ t x = true, ⟨hx, ht⟩, ?_⟩
        simp only [Body.expand, if_pos ht]
        exact .cons hb (.cons (.loop hb) (.nil fun _ _ => id))
      · refine ⟨fun rs x => P rs x ∧ t x = false, ⟨hx, Bool.eq_false_iff.mpr ht⟩, ?_⟩
        simp only [Body.expand, if_neg ht]
        exact .nil fun _ _ => id
  | await hW hQ => exact absurd rfl (hne _ _)
  | weaken hP _ hQ ih =>
      obtain ⟨P', hx', hk⟩ := ih hne (hP _ _ hx)
      exact ⟨P', hx', hk.weaken hQ⟩

/-- A statement that waits keeps its promise, and goes on when it is answered. -/
theorem Outline.answer {p : L} {i : S → I} (h : Outline enter W P (.await p i) Q) {rs : List A}
    {x : S} (hx : P rs x) : W rs (i x) x ∧ ∀ a, Q (rs ++ [a]) (enter (i x) a x) := by
  generalize hb : Body.await p i = b at h
  induction h with
  | await hW hQ =>
      cases hb
      exact ⟨hW _ _ hx, fun a => hQ _ _ a hx⟩
  | weaken hP _ hQ ih =>
      obtain ⟨hw, ha⟩ := ih (hP _ _ hx) hb
      exact ⟨hw, fun a => hQ _ _ (ha a)⟩
  | _ => cases hb

/-- What holds of a function with an outline, given the answers so far. -/
def Waiter.Keeps (enter : I → A → S → S) (W : List A → I → S → Prop) (Q : Condition S A)
    (rs : List A) (u : Waiter S I L) : Prop :=
  match u.waits with
  | some i => W rs i u.object ∧
      ∀ a, ∃ P, P (rs ++ [a]) (enter i a u.object) ∧ Outlines enter W P u.rest Q
  | none => ∃ P, P rs u.object ∧ Outlines enter W P u.rest Q

theorem Waiter.Keeps.step {u : Waiter S I L} {rs : List A} (h : u.Keeps enter W Q rs)
    {a : Action A} (ha : u.Enabled a) :
    (u.next enter a).Keeps enter W Q (rs ++ answers [a]) := by
  obtain ⟨x, k, w⟩ := u
  cases a with
  | leave => exact absurd ha id
  | resume a =>
      cases w with
      | none => exact absurd rfl ha
      | some i => exact h.2 a
  | step =>
      cases w with
      | some i => exact absurd ha.1 (Option.some_ne_none i)
      | none =>
          obtain ⟨P, hx, hk⟩ := h
          rw [show answers [(.step : Action A)] = [] from rfl, List.append_nil]
          cases hk with
          | nil _ => exact absurd rfl ha.2
          | @cons _ M _ b k hb hk =>
              by_cases hawait : ∃ p i, b = .await p i
              · obtain ⟨p, i, rfl⟩ := hawait
                obtain ⟨hw, hanswer⟩ := hb.answer hx
                exact ⟨hw, fun a => ⟨M, hanswer a, .cons (.skip M) hk⟩⟩
              · obtain ⟨P', hx', hexpand⟩ :=
                  hb.expand (fun p i hh => hawait ⟨p, i, hh⟩) hx
                cases b with
                | await p i => exact absurd ⟨p, i, rfl⟩ hawait
                | _ => exact ⟨P', hx', hexpand.append hk⟩

/-- **Soundness**: wherever a run has come to, a function with an outline keeps its promise while it
    waits and has established its postcondition when it is over. -/
theorem Outline.sound {b : Body S I L} (h : Outline enter W P b Q) {x : S} (hx : P [] x)
    {as : List (Action A)} {u : Waiter S I L}
    (hrun : Run (Waiter.machine enter) (Waiter.start b x) as u) :
    (∀ i, u.status = .waiting i → W (answers as) i u.object) ∧
      (u.status = .finished → Q (answers as) u.object) := by
  have hkeeps : u.Keeps enter W Q (answers as) := by
    refine hrun.history (I := fun as u => u.Keeps enter W Q (answers as)) ?_ ?_
    · exact ⟨P, hx, .cons h (.nil fun _ _ => id)⟩
    · intro as u a hu ha
      rw [answers_append]
      exact hu.step ha
  obtain ⟨x, k, w⟩ := u
  cases w with
  | some i =>
      constructor
      · intro j hj
        cases hj
        exact hkeeps.1
      · intro hf
        cases hf
  | none =>
      obtain ⟨P', hx', hk⟩ := hkeeps
      constructor
      · intro i hi
        cases hk <;> cases hi
      · intro hf
        cases hk with
        | nil hQ => exact hQ _ _ hx'
        | cons hb hk => cases hf

end Switch
