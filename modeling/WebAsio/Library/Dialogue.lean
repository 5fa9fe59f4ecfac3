import Mathlib.Data.List.Basic

set_option autoImplicit false

/-! # Dialogues

A dialogue reports events and asks for answers until it gives a value. It is a function of the
answers that are ready for it, and stops where there are none left. Every answer is an event when
it is taken, so what a dialogue has reported tells the answers it has had: `Leads m es n` says that
after the events `es`, given the answers among them, what is left of `m` is `n`. -/

universe u

/-- What becomes of a dialogue: the events, and the value with the answers that were not asked
    for, unless it stopped for want of an answer. -/
structure Dialogue.Course (ε ρ α : Type u) where
  events : List ε
  value : Option (α × List ρ)

def Dialogue (ε ρ α : Type u) : Type u := List ρ → Dialogue.Course ε ρ α

namespace Dialogue

variable {ε ρ α β γ : Type u}

/-- The same, after some events. -/
def Course.after (es : List ε) (c : Course ε ρ α) : Course ε ρ α :=
  { c with events := es ++ c.events }

@[simp] theorem Course.after_nil (c : Course ε ρ α) : c.after [] = c := rfl

@[simp] theorem Course.after_after (es fs : List ε) (c : Course ε ρ α) :
    (c.after fs).after es = c.after (es ++ fs) := by
  simp [Course.after]

/-- The second dialogue follows the first one if that gives a value. -/
def Course.andThen (c : Course ε ρ α) (k : α → Dialogue ε ρ β) : Course ε ρ β :=
  match c.value with
  | some (a, rs) => (k a rs).after c.events
  | none => ⟨c.events, none⟩

theorem Course.andThen_after (es : List ε) (c : Course ε ρ α) (k : α → Dialogue ε ρ β) :
    (c.after es).andThen k = (c.andThen k).after es := by
  rcases c with ⟨fs, _ | ⟨a, rs⟩⟩
  · rfl
  · exact (Course.after_after es fs (k a rs)).symm

instance : Monad (Dialogue ε ρ) where
  pure a rs := ⟨[], some (a, rs)⟩
  bind m k rs := (m rs).andThen k

/-- Reports an event. -/
def tell (e : ε) : Dialogue ε ρ PUnit := fun rs => ⟨[e], some (⟨⟩, rs)⟩

/-- Takes the next answer, which makes the event `mk`. -/
def ask (mk : ρ → ε) : Dialogue ε ρ ρ
  | [] => ⟨[], none⟩
  | r :: rs => ⟨[mk r], some (r, rs)⟩

theorem pure_apply (a : α) (rs : List ρ) : (pure a : Dialogue ε ρ α) rs = ⟨[], some (a, rs)⟩ := rfl

theorem bind_apply (m : Dialogue ε ρ α) (k : α → Dialogue ε ρ β) (rs : List ρ) :
    (m >>= k) rs = (m rs).andThen k := rfl

theorem andThen_pure (c : Course ε ρ α) : c.andThen pure = c := by
  rcases c with ⟨es, _ | ⟨a, rs⟩⟩
  · rfl
  · simp [Course.andThen, Course.after, pure_apply]

theorem andThen_andThen (c : Course ε ρ α) (k : α → Dialogue ε ρ β) (l : β → Dialogue ε ρ γ) :
    (c.andThen k).andThen l = c.andThen fun a => k a >>= l := by
  rcases c with ⟨es, _ | ⟨a, rs⟩⟩
  · rfl
  · exact Course.andThen_after es (k a rs) l

instance : LawfulMonad (Dialogue ε ρ) :=
  LawfulMonad.mk' _ (fun m => funext fun rs => andThen_pure (m rs)) (fun _ _ => rfl)
    fun m k l => funext fun rs => andThen_andThen (m rs) k l

/-! ## Where the events of a dialogue lead -/

section Leads

variable (answer : ε → Option ρ)

/-- Given the answers that are among `es`, the dialogue `m` reports `es` and goes on as `n`. -/
def Leads (m : Dialogue ε ρ α) (es : List ε) (n : Dialogue ε ρ α) : Prop :=
  ∀ rs, m (es.filterMap answer ++ rs) = (n rs).after es

variable {answer} {m n p : Dialogue ε ρ α} {es fs : List ε}

theorem Leads.refl (m : Dialogue ε ρ α) : Leads answer m [] m := fun _ => rfl

theorem Leads.trans (h : Leads answer m es n) (h' : Leads answer n fs p) :
    Leads answer m (es ++ fs) p := by
  intro rs
  rw [List.filterMap_append, List.append_assoc, h, h', Course.after_after]

theorem Leads.tell {e : ε} (he : answer e = none) (k : PUnit → Dialogue ε ρ α) :
    Leads answer (tell e >>= k) [e] (k ⟨⟩) := by
  intro rs
  rw [List.filterMap_cons_none he, List.filterMap_nil, List.nil_append]
  rfl

theorem Leads.ask {mk : ρ → ε} {r : ρ} (hr : answer (mk r) = some r) (k : ρ → Dialogue ε ρ α) :
    Leads answer (ask mk >>= k) [mk r] (k r) := by
  intro rs
  rw [List.filterMap_cons_some hr, List.filterMap_nil, List.singleton_append]
  rfl

/-- What follows a dialogue waits until it is over. -/
theorem Leads.bind (h : Leads answer m es n) (k : α → Dialogue ε ρ β) :
    Leads answer (m >>= k) es (n >>= k) := by
  intro rs
  rw [bind_apply, bind_apply, h, Course.andThen_after]

/-- What was reported is the beginning of what the dialogue reports with the same answers. -/
theorem Leads.reported (h : Leads answer m es n) :
    es <+: (m (es.filterMap answer)).events := by
  have hrs := h []
  rw [List.append_nil] at hrs
  rw [hrs]
  exact List.prefix_append ..

/-- A dialogue that is over had all the answers it asks for. -/
theorem Leads.course {a : α} (h : Leads answer m es (pure a)) :
    m (es.filterMap answer) = ⟨es, some (a, [])⟩ := by
  have hrs := h []
  rw [List.append_nil, pure_apply] at hrs
  rw [hrs, Course.after, List.append_nil]

end Leads

end Dialogue
