import Mathlib.Logic.Relation

set_option autoImplicit false

/-! # Guarded transition systems and their runs

A system is given by a guard `enabled : σ → α → Prop` and a total effect `next : σ → α → σ`; an
action is taken only where its guard holds. `Run` is a finite run labelled by its actions,
`Reachable` forgets the labels. Two induction rules carry every safety argument: `Run.invariant`
for facts kept by all steps, and `Run.invariant_of` for facts kept by the steps that meet a side
condition, in runs all of whose steps meet it. -/

namespace Transition

variable {σ α : Type*}

/-- A guarded transition system. -/
structure System (σ α : Type*) where
  enabled : σ → α → Prop
  next : σ → α → σ

variable (M : System σ α)

/-- `Run s as t`: taking the actions `as` in order leads from `s` to `t`. -/
inductive Run : σ → List α → σ → Prop
  | nil (s : σ) : Run s [] s
  | cons {s t : σ} {a : α} {as : List α} :
      M.enabled s a → Run (M.next s a) as t → Run s (a :: as) t

/-- `t` can be reached from `s`. -/
def Reachable (s t : σ) : Prop := ∃ as, Run M s as t

/-- Every step of the run of `as` from `s` meets the condition `P` on the state before it. -/
def Along (P : σ → α → Prop) : σ → List α → Prop
  | _, [] => True
  | s, a :: as => P s a ∧ Along P (M.next s a) as

/-- The state that the actions lead to, enabled or not. -/
def System.exec : σ → List α → σ := List.foldl M.next

/-- The actions can be taken one after the other. -/
def System.Legal : σ → List α → Prop
  | _, [] => True
  | s, a :: as => M.enabled s a ∧ System.Legal (M.next s a) as

instance System.decidableLegal [∀ s a, Decidable (M.enabled s a)] :
    ∀ (s : σ) (as : List α), Decidable (M.Legal s as)
  | _, [] => .isTrue trivial
  | s, a :: as =>
    haveI := System.decidableLegal (M.next s a) as
    inferInstanceAs (Decidable (M.enabled s a ∧ M.Legal (M.next s a) as))

instance decidableAlong (P : σ → α → Prop) [∀ s a, Decidable (P s a)] :
    ∀ (s : σ) (as : List α), Decidable (Along M P s as)
  | _, [] => .isTrue trivial
  | s, a :: as =>
    haveI := decidableAlong P (M.next s a) as
    inferInstanceAs (Decidable (P s a ∧ Along M P (M.next s a) as))

variable {M}

/-- Runs are computed. -/
theorem Run.of_legal {s : σ} {as : List α} (h : M.Legal s as) : Run M s as (M.exec s as) := by
  induction as generalizing s with
  | nil => exact Run.nil s
  | cons a as ih => exact Run.cons h.1 (ih h.2)

theorem Reachable.of_legal {s : σ} {as : List α} (h : M.Legal s as) :
    Reachable M s (M.exec s as) := ⟨as, .of_legal h⟩

theorem Run.eq_exec {s t : σ} {as : List α} (h : Run M s as t) : t = M.exec s as := by
  induction h with
  | nil => rfl
  | cons _ _ ih => exact ih

theorem Run.append {s t u : σ} {as bs : List α} (h : Run M s as t) (h' : Run M t bs u) :
    Run M s (as ++ bs) u := by
  induction h with
  | nil => exact h'
  | cons ha _ ih => exact Run.cons ha (ih h')

theorem Run.snoc {s t : σ} {as : List α} {a : α} (h : Run M s as t) (ha : M.enabled t a) :
    Run M s (as ++ [a]) (M.next t a) :=
  h.append (Run.cons ha (Run.nil _))

/-- A property that holds at the start and is kept by every step holds at the end of each run. -/
theorem Run.invariant {I : σ → Prop} {s t : σ} {as : List α} (h : Run M s as t) (h₀ : I s)
    (hstep : ∀ s a, I s → M.enabled s a → I (M.next s a)) : I t := by
  induction h with
  | nil => exact h₀
  | cons ha _ ih => exact ih (hstep _ _ h₀ ha)

/-- The same for runs whose steps all meet a condition: only those steps need keep it. -/
theorem Run.invariant_of {P : σ → α → Prop} {I : σ → Prop} {s t : σ} {as : List α}
    (h : Run M s as t) (hP : Along M P s as) (h₀ : I s)
    (hstep : ∀ s a, I s → M.enabled s a → P s a → I (M.next s a)) : I t := by
  induction h with
  | nil => exact h₀
  | cons ha _ ih => exact ih hP.2 (hstep _ _ h₀ ha hP.1)

/-- Along a run whose steps all meet `Q`, and so keep the invariant `J`, every step meets what
    follows from the two. -/
theorem Run.along {P Q : σ → α → Prop} {J : σ → Prop} {s t : σ} {as : List α} (h : Run M s as t)
    (hQ : Along M Q s as) (h₀ : J s) (hP : ∀ s a, J s → M.enabled s a → Q s a → P s a)
    (hstep : ∀ s a, J s → M.enabled s a → Q s a → J (M.next s a)) : Along M P s as := by
  induction h with
  | nil => trivial
  | cons ha _ ih => exact ⟨hP _ _ h₀ ha hQ.1, ih hQ.2 (hstep _ _ h₀ ha hQ.1)⟩

/-- The same for a property of the state and of the actions taken so far. -/
theorem Run.history {I : List α → σ → Prop} {s t : σ} {as : List α} (h : Run M s as t)
    (h₀ : I [] s) (hstep : ∀ l s a, I l s → M.enabled s a → I (l ++ [a]) (M.next s a)) :
    I as t := by
  suffices H : ∀ l, I l s → I (l ++ as) t from H [] h₀
  clear h₀
  induction h with
  | nil =>
      intro l hl
      rwa [List.append_nil]
  | @cons s _ a as ha _ ih =>
      intro l hl
      rw [← List.singleton_append, ← List.append_assoc]
      exact ih (l ++ [a]) (hstep l s a hl ha)

theorem along_true (s : σ) (as : List α) : Along M (fun _ _ => True) s as := by
  induction as generalizing s with
  | nil => trivial
  | cons a as ih => exact ⟨trivial, ih _⟩

/-- Two conditions that agree on every step from a state in `J` agree on whole runs, when the steps
    that meet the second one stay in `J`. -/
theorem Run.along_iff {P Q : σ → α → Prop} {J : σ → Prop} {s t : σ} {as : List α}
    (h : Run M s as t) (h₀ : J s) (hiff : ∀ s a, J s → M.enabled s a → (P s a ↔ Q s a))
    (hstep : ∀ s a, J s → M.enabled s a → Q s a → J (M.next s a)) :
    Along M P s as ↔ Along M Q s as := by
  induction h with
  | nil => exact Iff.rfl
  | @cons s _ a _ ha _ ih =>
      have hPQ := hiff s a h₀ ha
      constructor
      · rintro ⟨hP, hs⟩
        have hQ := hPQ.mp hP
        exact ⟨hQ, (ih (hstep s a h₀ ha hQ)).mp hs⟩
      · rintro ⟨hQ, hs⟩
        exact ⟨hPQ.mpr hQ, (ih (hstep s a h₀ ha hQ)).mpr hs⟩

theorem Reachable.refl (s : σ) : Reachable M s s := ⟨[], Run.nil s⟩

theorem Reachable.step {s t : σ} {a : α} (h : Reachable M s t) (ha : M.enabled t a) :
    Reachable M s (M.next t a) := by
  obtain ⟨as, has⟩ := h
  exact ⟨as ++ [a], has.snoc ha⟩

theorem Reachable.run {s t u : σ} {as : List α} (h : Reachable M s t) (h' : Run M t as u) :
    Reachable M s u := by
  obtain ⟨bs, hbs⟩ := h
  exact ⟨bs ++ as, hbs.append h'⟩

theorem Reachable.invariant {I : σ → Prop} {s t : σ} (h : Reachable M s t) (h₀ : I s)
    (hstep : ∀ s a, I s → M.enabled s a → I (M.next s a)) : I t := by
  obtain ⟨_, has⟩ := h
  exact has.invariant h₀ hstep

/-- Two invariants proved in stages: the second one may use the first at every step. -/
theorem Reachable.invariant_with {J I : σ → Prop} {s t : σ} (h : Reachable M s t)
    (hJ : ∀ u, Reachable M s u → J u) (h₀ : I s)
    (hstep : ∀ s a, J s → I s → M.enabled s a → I (M.next s a)) : I t := by
  obtain ⟨as, has⟩ := h
  suffices H : ∀ u bs v, Run M u bs v → Reachable M s u → I u → I v from
    H s as t has (Reachable.refl s) h₀
  intro u bs v hbs hu hI
  induction hbs with
  | nil => exact hI
  | cons ha _ ih => exact ih (hu.step ha) (hstep _ _ (hJ _ hu) hI ha)

end Transition
