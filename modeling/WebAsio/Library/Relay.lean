import Mathlib.Data.List.Basic

set_option autoImplicit false

/-! # Relays

A relay is a row of posts, some of them vacant. A station records what its input filter makes of a
message, and hands on what its output filter makes of the record, unless that is the message `z`
which says nothing. A vacant post hands on what it gets. -/

namespace Relay

variable {T : Type*} [DecidableEq T]

structure Station (T : Type*) where
  input : T → T
  output : T → T

/-- What a station hands on. -/
def Station.through (f : Station T) (t : T) : T := f.output (f.input t)

/-- A station and what it recorded last. -/
structure Post (T : Type*) where
  station : Station T
  record : T

/-- What comes out at the end of the row, if anything does. -/
def relayed (z : T) : List (Option (Post T)) → T → Option T
  | [], t => some t
  | none :: ps, t => relayed z ps t
  | some p :: ps, t => if p.station.through t = z then none else relayed z ps (p.station.through t)

/-- The row after a message: the stations that it reaches have a new record. -/
def receive (z : T) : List (Option (Post T)) → T → List (Option (Post T))
  | [], _ => []
  | none :: ps, t => none :: receive z ps t
  | some p :: ps, t => some ⟨p.station, p.station.input t⟩ ::
      if p.station.through t = z then ps else receive z ps (p.station.through t)

/-! ## Rows that are looked up

The posts of a row are often kept elsewhere, under a key: `key x` is that of the place `x`, and a
place without a key is vacant. -/

section Keys

variable {α κ : Type*} {key : α → Option κ} {f f' : κ → Option (Post T)} {z : T}

/-- The vacant places do not matter to what comes out. -/
theorem relayed_keys (xs : List α) (t : T) :
    relayed z (xs.map fun x => (key x).bind f) t = relayed z ((xs.filterMap key).map f) t := by
  induction xs generalizing t with
  | nil => rfl
  | cons x xs ih =>
      cases hx : key x with
      | none => simp [hx, relayed, ih]
      | some k => cases hk : f k <;> simp [hx, hk, relayed, ih]

omit [DecidableEq T] in
theorem map_keys {xs : List α} (h : (xs.filterMap key).map f' = (xs.filterMap key).map f) :
    (xs.map fun x => (key x).bind f') = xs.map fun x => (key x).bind f := by
  refine List.map_congr_left fun x hx => ?_
  cases hkey : key x with
  | none => rfl
  | some k => exact List.map_inj_left.mp h k (List.mem_filterMap.mpr ⟨x, hx, hkey⟩)

/-- A message is received by the row when it is received at the keys. -/
theorem receive_keys {xs : List α} {t : T}
    (h : (xs.filterMap key).map f' = receive z ((xs.filterMap key).map f) t) :
    (xs.map fun x => (key x).bind f') = receive z (xs.map fun x => (key x).bind f) t := by
  induction xs generalizing t with
  | nil => rfl
  | cons x xs ih =>
      cases hx : key x with
      | none =>
          simp only [hx, List.filterMap_cons] at h
          simp [hx, receive, ih h]
      | some k =>
          simp only [hx, List.filterMap_cons, List.map_cons] at h
          simp only [hx, List.map_cons, Option.bind_some]
          cases hk : f k with
          | none =>
              rw [hk, receive, List.cons.injEq] at h
              rw [receive, h.1, ih h.2]
          | some p =>
              rw [hk, receive, List.cons.injEq] at h
              rw [receive, h.1]
              by_cases hstop : p.station.through t = z
              · rw [if_pos hstop] at h ⊢
                rw [map_keys h.2]
              · rw [if_neg hstop] at h ⊢
                rw [ih h.2]

end Keys

end Relay
