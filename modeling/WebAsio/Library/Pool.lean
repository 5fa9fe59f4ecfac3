import Mathlib.Algebra.Order.Ring.Int
import Mathlib.Data.List.Basic

set_option autoImplicit false

/-! # Pools of spare parts

A pool keeps at most `N` parts for reuse. Who takes one gets a part that is kept, if there is any,
and else a new one; a part that is given back is kept if there is room, and else scrapped. The two
main results say what a history of moves costs. `exact_cost` computes it from the height of the
history, the number of parts taken so far less those given back: as long as the height varies by at
most `N`, parts are made only to reach the peak and scrapped only to reach the trough, however long
the history is. `cheapest` compares with every other way to keep at most `N` parts, also one that
knows the moves to come. -/

namespace Pool

inductive Move
  | take
  | give
  deriving DecidableEq

/-- The parts that are kept, and how many were made and scrapped so far. -/
@[ext]
structure Stock where
  kept : ℕ
  made : ℕ
  scrapped : ℕ
  deriving DecidableEq

namespace Stock

def next (N : ℕ) (p : Stock) : Move → Stock
  | .take => if p.kept = 0 then { p with made := p.made + 1 } else { p with kept := p.kept - 1 }
  | .give =>
    if p.kept < N then { p with kept := p.kept + 1 } else { p with scrapped := p.scrapped + 1 }

def exec (N : ℕ) (p : Stock) (ms : List Move) : Stock := ms.foldl (next N) p

variable {N : ℕ} {p : Stock}

theorem exec_cons (m : Move) (ms : List Move) : p.exec N (m :: ms) = (p.next N m).exec N ms := rfl

theorem next_kept_le (h : p.kept ≤ N) (m : Move) : (p.next N m).kept ≤ N := by
  cases m with
  | take =>
      by_cases hk : p.kept = 0
      · simpa only [next, if_pos hk] using h
      · simp only [next, if_neg hk]
        omega
  | give =>
      by_cases hk : p.kept < N
      · simp only [next, if_pos hk]
        exact hk
      · simpa only [next, if_neg hk] using h

end Stock

/-! ## The height of a history -/

def Move.height : Move → ℤ
  | .take => 1
  | .give => -1

/-- The greatest height that a history reaches, over the one it starts from. -/
def peak : List Move → ℤ
  | [] => 0
  | m :: ms => max 0 (m.height + peak ms)

/-- The least height that a history reaches. -/
def trough : List Move → ℤ
  | [] => 0
  | m :: ms => min 0 (m.height + trough ms)

theorem peak_nonneg (ms : List Move) : 0 ≤ peak ms := by
  cases ms with
  | nil => exact le_refl 0
  | cons m ms => exact le_max_left _ _

theorem trough_nonpos (ms : List Move) : trough ms ≤ 0 := by
  cases ms with
  | nil => exact le_refl 0
  | cons m ms => exact min_le_left _ _

/-- What one move costs, given what the moves after it cost. -/
theorem cost_cons {N : ℕ} {p : Stock} (hp : p.kept ≤ N) {m : Move} {ms : List Move}
    (hvary : peak (m :: ms) - trough (m :: ms) ≤ N) :
    ((p.next N m).made : ℤ) + max 0 (peak ms - (p.next N m).kept) =
        p.made + max 0 (peak (m :: ms) - p.kept) ∧
      ((p.next N m).scrapped : ℤ) + max 0 ((p.next N m).kept - (trough ms + N)) =
        p.scrapped + max 0 (p.kept - (trough (m :: ms) + N)) := by
  have hpeak := peak_nonneg ms
  have htrough := trough_nonpos ms
  cases m with
  | take =>
      simp only [peak, trough, Move.height] at hvary ⊢
      by_cases hk : p.kept = 0
      · simp only [Stock.next, if_pos hk]
        omega
      · simp only [Stock.next, if_neg hk]
        omega
  | give =>
      simp only [peak, trough, Move.height] at hvary ⊢
      by_cases hk : p.kept < N
      · simp only [Stock.next, if_pos hk]
        omega
      · simp only [Stock.next, if_neg hk]
        omega

/-- **The cost of a history** whose height varies by at most `N`. -/
theorem exact_cost {N : ℕ} {p : Stock} (hp : p.kept ≤ N) {ms : List Move}
    (hvary : peak ms - trough ms ≤ N) :
    ((p.exec N ms).made : ℤ) = p.made + max 0 (peak ms - p.kept) ∧
      ((p.exec N ms).scrapped : ℤ) = p.scrapped + max 0 (p.kept - (trough ms + N)) := by
  induction ms generalizing p with
  | nil =>
      simp only [Stock.exec, List.foldl_nil, peak, trough]
      omega
  | cons m ms ih =>
      have hrest : peak ms - trough ms ≤ N := by
        have hpeak : m.height + peak ms ≤ peak (m :: ms) := le_max_right _ _
        have htrough : trough (m :: ms) ≤ m.height + trough ms := min_le_right _ _
        omega
      obtain ⟨hmade, hscrapped⟩ := ih (Stock.next_kept_le hp m) hrest
      obtain ⟨hmade', hscrapped'⟩ := cost_cons hp hvary
      rw [Stock.exec_cons]
      exact ⟨hmade.trans hmade', hscrapped.trans hscrapped'⟩

/-! ## Other ways to keep parts -/

/-- What any keeper of at most `N` parts may do at a move: also make a part though there is one,
    scrap one though there is room, and scrap parts before the move. -/
inductive Serves (N : ℕ) : Stock → Move → Stock → Prop
  | reuse (p : Stock) : Serves N { p with kept := p.kept + 1 } .take p
  | make (p : Stock) : Serves N p .take { p with made := p.made + 1 }
  | keep (p : Stock) (room : p.kept < N) : Serves N p .give { p with kept := p.kept + 1 }
  | scrap (p : Stock) : Serves N p .give { p with scrapped := p.scrapped + 1 }
  | first {p q : Stock} {m : Move} (rest : Serves N { p with scrapped := p.scrapped + 1 } m q) :
      Serves N { p with kept := p.kept + 1 } m q

/-- A keeper serves a history. -/
inductive ServesAll (N : ℕ) : Stock → List Move → Stock → Prop
  | nil (p : Stock) : ServesAll N p [] p
  | cons {p q r : Stock} {m : Move} {ms : List Move} (head : Serves N p m q)
      (tail : ServesAll N q ms r) : ServesAll N p (m :: ms) r

/-- `p` has cost at most what `q` has, and as much less as `q` has parts more. -/
structure Cheaper (N : ℕ) (p q : Stock) : Prop where
  room : p.kept ≤ N
  room' : q.kept ≤ N
  made : p.made + (q.kept - p.kept) ≤ q.made
  level : (p.kept : ℤ) - p.made + p.scrapped = q.kept - q.made + q.scrapped

theorem Cheaper.scrapped {N : ℕ} {p q : Stock} (h : Cheaper N p q) :
    p.made ≤ q.made ∧ p.scrapped ≤ q.scrapped := by
  have hmade := h.made
  have hlevel := h.level
  omega

theorem Cheaper.step {N : ℕ} {p q q' : Stock} {m : Move} (hs : Serves N q m q')
    (h : Cheaper N p q) : Cheaper N (p.next N m) q' := by
  induction hs with
  | reuse q =>
      obtain ⟨room, room', made, level⟩ := h
      by_cases hk : p.kept = 0
      · simp only [Stock.next, if_pos hk]
        constructor <;> simp only at * <;> omega
      · simp only [Stock.next, if_neg hk]
        constructor <;> simp only at * <;> omega
  | make q =>
      obtain ⟨room, room', made, level⟩ := h
      by_cases hk : p.kept = 0
      · simp only [Stock.next, if_pos hk]
        constructor <;> simp only <;> omega
      · simp only [Stock.next, if_neg hk]
        constructor <;> simp only <;> omega
  | keep q hroom =>
      obtain ⟨room, room', made, level⟩ := h
      by_cases hk : p.kept < N
      · simp only [Stock.next, if_pos hk]
        constructor <;> simp only <;> omega
      · simp only [Stock.next, if_neg hk]
        constructor <;> simp only <;> omega
  | scrap q =>
      obtain ⟨room, room', made, level⟩ := h
      by_cases hk : p.kept < N
      · simp only [Stock.next, if_pos hk]
        constructor <;> simp only <;> omega
      · simp only [Stock.next, if_neg hk]
        constructor <;> simp only <;> omega
  | first rest ih =>
      obtain ⟨room, room', made, level⟩ := h
      refine ih ⟨room, ?_, ?_, ?_⟩ <;> simp only at * <;> omega

/-- **No other keeper does with fewer parts**, made or scrapped, whatever it knows. -/
theorem cheapest {N : ℕ} {p q : Stock} {ms : List Move} (hs : ServesAll N p ms q)
    (hp : p.kept ≤ N) :
    (p.exec N ms).made ≤ q.made ∧ (p.exec N ms).scrapped ≤ q.scrapped := by
  suffices H : ∀ p', Cheaper N p' p → Cheaper N (p'.exec N ms) q from
    (H p ⟨hp, hp, by omega, rfl⟩).scrapped
  induction hs with
  | nil q => exact fun p' h => h
  | cons head _ ih => exact fun p' h => ih (Cheaper.step head h).room' _ (Cheaper.step head h)

end Pool
