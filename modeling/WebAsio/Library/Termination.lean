import Mathlib.Data.Multiset.DershowitzManna
import Mathlib.Data.Multiset.Range
import Mathlib.Data.Nat.Find
import Mathlib.Data.Stream.Defs
import WebAsio.Library.Transition

set_option autoImplicit false

/-! # Runs that come to an end

Some steps of a system are `busy`: each lowers a rank in a well-founded order, while the other steps
leave the rank alone or are taken finitely often. Then no infinite run has infinitely many busy
steps, and from every state busy steps lead to one where none is left. The second part is about a
rank that fits systems of many parts, each with a weight of its own: the multiset of the weights. -/

namespace Transition

variable {σ α β : Type*}

/-- An infinite run. -/
structure Endless (M : System σ α) (s : σ) where
  state : ℕ → σ
  action : ℕ → α
  start : state 0 = s
  enabled : ∀ n, M.enabled (state n) (action n)
  next : ∀ n, state (n + 1) = M.next (state n) (action n)

variable {M : System σ α}

theorem Endless.reachable {s : σ} (e : Endless M s) (n : ℕ) : Reachable M s (e.state n) := by
  induction n with
  | zero =>
      rw [e.start]
      exact Reachable.refl s
  | succ n ih =>
      rw [e.next]
      exact ih.step (e.enabled n)

namespace Endless

/-- A step before an infinite run. -/
def cons {s : σ} {a : α} (ha : M.enabled s a) (e : Endless M (M.next s a)) : Endless M s where
  state := Stream'.cons s e.state
  action := Stream'.cons a e.action
  start := rfl
  enabled n := by
    cases n with
    | zero => exact ha
    | succ n => exact e.enabled n
  next n := by
    cases n with
    | zero => exact e.start
    | succ n => exact e.next n

/-- A run before an infinite run. -/
def append : (as : List α) → {s : σ} → M.Legal s as → Endless M (M.exec s as) → Endless M s
  | [], _, _, e => e
  | _ :: as, _, h, e => .cons h.1 (append as h.2 e)

/-- Behind the run, the actions are those of the infinite one. -/
theorem append_action {P : α → Prop} {as : List α} {s : σ} (h : M.Legal s as)
    (e : Endless M (M.exec s as)) (hP : ∀ n, P (e.action n)) (i : ℕ) (hi : as.length ≤ i) :
    P ((append as h e).action i) := by
  induction as generalizing s i with
  | nil => exact hP i
  | cons a as ih =>
      cases i with
      | zero => cases hi
      | succ i => exact ih h.2 e hP i (Nat.le_of_succ_le_succ hi)

end Endless

/-- A rank for the busy steps of a system: they lower it, wherever the invariant holds, and the
    quiet ones leave it alone. -/
structure Ranking (M : System σ α) (lt : β → β → Prop) where
  rank : σ → β
  wf : WellFounded lt
  inv : σ → Prop
  step : ∀ s a, inv s → M.enabled s a → inv (M.next s a)
  busy : σ → α → Prop
  quiet : σ → α → Prop
  lowers : ∀ s a, inv s → M.enabled s a → busy s a → lt (rank (M.next s a)) (rank s)
  keeps : ∀ s a, inv s → M.enabled s a → quiet s a → rank (M.next s a) = rank s

namespace Ranking

variable {lt : β → β → Prop} (R : Ranking M lt) {s : σ}

theorem inv_endless (hs : R.inv s) (e : Endless M s) (n : ℕ) : R.inv (e.state n) :=
  (e.reachable n).invariant hs R.step

/-- While all steps are quiet the rank stays. -/
theorem rank_of_quiet (hs : R.inv s) (e : Endless M s) (n i : ℕ)
    (hq : ∀ j < i, R.quiet (e.state (n + j)) (e.action (n + j))) :
    R.rank (e.state (n + i)) = R.rank (e.state n) := by
  induction i with
  | zero => rfl
  | succ i ih =>
      rw [← Nat.add_assoc, e.next, R.keeps _ _ (R.inv_endless hs e _) (e.enabled _)
        (hq i (Nat.lt_succ_self i))]
      exact ih fun j hj => hq j (Nat.lt_succ_of_lt hj)

/-- **No livelock**: in an infinite run whose steps are busy or quiet from some point on, they are
    quiet from some point on. -/
theorem eventually_quiet (hs : R.inv s) (e : Endless M s)
    (hbusy : ∃ n, ∀ i ≥ n, R.busy (e.state i) (e.action i) ∨ R.quiet (e.state i) (e.action i)) :
    ∃ n, ∀ i ≥ n, R.quiet (e.state i) (e.action i) := by
  classical
  obtain ⟨n₀, h₀⟩ := hbusy
  suffices H : ∀ b n, n₀ ≤ n → R.rank (e.state n) = b →
      ∃ m, ∀ i ≥ m, R.quiet (e.state i) (e.action i) from H _ n₀ (Nat.le_refl _) rfl
  intro b
  induction b using R.wf.induction with
  | _ b ih =>
    intro n hn hb
    by_cases hall : ∀ i ≥ n, R.quiet (e.state i) (e.action i)
    · exact ⟨n, hall⟩
    have hex : ∃ j, ¬ R.quiet (e.state (n + j)) (e.action (n + j)) := by
      push Not at hall
      obtain ⟨i, hi, hq⟩ := hall
      exact ⟨i - n, by rwa [Nat.add_sub_cancel' hi]⟩
    -- the first step that is not quiet is busy
    have hfirst := Nat.find_spec hex
    have hbefore : ∀ j < Nat.find hex, R.quiet (e.state (n + j)) (e.action (n + j)) :=
      fun j hj => not_not.mp (Nat.find_min hex hj)
    generalize Nat.find hex = j at hfirst hbefore
    have hlow := R.lowers _ _ (R.inv_endless hs e (n + j)) (e.enabled _)
      ((h₀ (n + j) (by omega)).resolve_right hfirst)
    rw [R.rank_of_quiet hs e n j hbefore, hb, ← e.next] at hlow
    exact ih _ hlow (n + j + 1) (by omega) rfl

end Ranking

end Transition

/-! ## The weights of many parts -/

namespace Weights

variable {α : Type*} [Preorder α]

/-- The weights of the first `n` parts. -/
def weights (n : ℕ) (w : ℕ → α) : Multiset α := (Multiset.range n).map w

open scoped Classical in
/-- The weights become less when every part that changes, and every new one, is outweighed by what a
    part that changes weighed before. -/
theorem weights_lt {n m : ℕ} {w w' : ℕ → α} (hnm : n ≤ m) (hx : ∃ x < n, w' x ≠ w x)
    (hd : ∀ x < m, (x < n ∧ w' x = w x) ∨ ∃ y < n, w' y ≠ w y ∧ w' x < w y) :
    (weights m w').IsDershowitzMannaLT (weights n w) := by
  let same : ℕ → Prop := fun x => x < n ∧ w' x = w x
  -- the parts that stay are the same before and after
  have hsame : (Multiset.range m).filter same = (Multiset.range n).filter same := by
    refine (Multiset.Nodup.ext (Multiset.nodup_range m |>.filter _)
      (Multiset.nodup_range n |>.filter _)).mpr fun x => ?_
    simp only [Multiset.mem_filter, Multiset.mem_range, same]
    constructor
    · rintro ⟨-, h⟩
      exact ⟨h.1, h⟩
    · rintro ⟨hlt, h⟩
      exact ⟨Nat.lt_of_lt_of_le hlt hnm, h⟩
  have hstay : ((Multiset.range n).filter same).map w' = ((Multiset.range n).filter same).map w :=
    Multiset.map_congr rfl fun x hx => ((Multiset.mem_filter.mp hx).2).2
  refine ⟨((Multiset.range n).filter same).map w,
    ((Multiset.range m).filter fun x => ¬ same x).map w',
    ((Multiset.range n).filter fun x => ¬ same x).map w, ?_, ?_, ?_, ?_⟩
  · obtain ⟨x, hlt, hne⟩ := hx
    have hmem : w x ∈ ((Multiset.range n).filter fun x => ¬ same x).map w :=
      Multiset.mem_map_of_mem w (by simp [same, hlt, hne])
    rintro h
    rw [h] at hmem
    exact Multiset.notMem_zero (w x) hmem
  · rw [← hstay, ← hsame, ← Multiset.map_add, Multiset.filter_add_not, weights]
  · rw [← Multiset.map_add, Multiset.filter_add_not, weights]
  · intro a ha
    obtain ⟨x, hx, rfl⟩ := Multiset.mem_map.mp ha
    obtain ⟨hm, hns⟩ := Multiset.mem_filter.mp hx
    rcases hd x (Multiset.mem_range.mp hm) with hs | ⟨y, hy, hne, hlt⟩
    · exact absurd hs hns
    · refine ⟨w y, Multiset.mem_map_of_mem w ?_, hlt⟩
      simp [same, hy, hne]

end Weights
