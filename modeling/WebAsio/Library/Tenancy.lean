import Mathlib.Tactic.TypeStar

set_option autoImplicit false

/-! # Tenancy

Who uses what, when things come into use and go out of it one by one: blocks of memory, places,
connections. What is in use is `live`; `has i` is what the user `i` has. -/

/-- Tenants have live blocks, each its own, and no block is live without a tenant. -/
structure Tenancy {ι β : Type*} (live : β → Prop) (has : ι → Option β) : Prop where
  alive : ∀ i b, has i = some b → live b
  apart : ∀ i j b, has i = some b → has j = some b → i = j
  used : ∀ b, live b → ∃ i, has i = some b

namespace Tenancy

variable {ι β : Type*} {live live' : β → Prop} {has has' : ι → Option β} {i : ι} {b : β}

/-- A tenant moves into a block that was not live. -/
theorem enter (t : Tenancy live has) (hb : ¬ live b) (hi : has i = none)
    (hlive : ∀ c, live' c ↔ c = b ∨ live c)
    (hsame : ∀ j, j ≠ i → has' j = has j) (hnew : has' i = some b) : Tenancy live' has' := by
  constructor
  · intro j c hj
    by_cases hji : j = i
    · subst hji
      exact (hlive c).mpr (Or.inl (Option.some.inj (hj.symm.trans hnew)))
    · exact (hlive c).mpr (Or.inr (t.alive j c (hsame j hji ▸ hj)))
  · intro j k c hj hk
    by_cases hji : j = i <;> by_cases hki : k = i
    · rw [hji, hki]
    · subst hji
      obtain rfl := Option.some.inj (hnew.symm.trans hj)
      exact absurd (t.alive k b (hsame k hki ▸ hk)) hb
    · subst hki
      obtain rfl := Option.some.inj (hnew.symm.trans hk)
      exact absurd (t.alive j b (hsame j hji ▸ hj)) hb
    · exact t.apart j k c (hsame j hji ▸ hj) (hsame k hki ▸ hk)
  · intro c hc
    rcases (hlive c).mp hc with rfl | hc
    · exact ⟨i, hnew⟩
    · obtain ⟨j, hj⟩ := t.used c hc
      have hji : j ≠ i := by
        rintro rfl
        rw [hi] at hj
        cases hj
      exact ⟨j, (hsame j hji).trans hj⟩

/-- A tenant gives its block back. -/
theorem quit (t : Tenancy live has) (hi : has i = some b) (hlive : ∀ c, live' c ↔ c ≠ b ∧ live c)
    (hsame : ∀ j, j ≠ i → has' j = has j) (hgone : has' i = none) : Tenancy live' has' := by
  have hother : ∀ j c, has' j = some c → j ≠ i ∧ has j = some c := by
    intro j c hj
    have hji : j ≠ i := by
      rintro rfl
      rw [hgone] at hj
      cases hj
    exact ⟨hji, hsame j hji ▸ hj⟩
  constructor
  · intro j c hj
    obtain ⟨hji, hj⟩ := hother j c hj
    refine (hlive c).mpr ⟨?_, t.alive j c hj⟩
    rintro rfl
    exact hji (t.apart j i c hj hi)
  · intro j k c hj hk
    exact t.apart j k c (hother j c hj).2 (hother k c hk).2
  · intro c hc
    obtain ⟨hcb, hc⟩ := (hlive c).mp hc
    obtain ⟨j, hj⟩ := t.used c hc
    have hji : j ≠ i := by
      rintro rfl
      exact hcb (Option.some.inj (hj.symm.trans hi))
    exact ⟨j, (hsame j hji).trans hj⟩

theorem congr (t : Tenancy live has) (hlive : ∀ c, live' c ↔ live c) (hhas : ∀ j, has' j = has j) :
    Tenancy live' has' := by
  constructor
  · exact fun j c hj => (hlive c).mpr (t.alive j c (hhas j ▸ hj))
  · exact fun j k c hj hk => t.apart j k c (hhas j ▸ hj) (hhas k ▸ hk)
  · intro c hc
    obtain ⟨j, hj⟩ := t.used c ((hlive c).mp hc)
    exact ⟨j, (hhas j).trans hj⟩

end Tenancy
