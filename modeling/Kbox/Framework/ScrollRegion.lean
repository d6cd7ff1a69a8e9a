import Kbox.Framework.ScrollBuffer

/-!
# Scroll regions

A terminal whose rows `top .. bottom - 1` scroll, seen as its rows, its history
and the row of the cursor.  `Locks` says that a region locks the rest of the
screen, and that the rest leaves the region alone; `LocksAhead` is the part of
it for a cursor outside the region that moves towards it.
-/

namespace Kbox.Framework

structure RegionView (ρ : Type) where
  /-- The rows of the screen. -/
  rows : List ρ
  history : List ρ
  top : Int
  bottom : Int
  /-- The row of the cursor. -/
  cursor : Int
  /-- How often the region scrolled. -/
  scrolls : Int
deriving DecidableEq, Repr

namespace RegionView

variable {ρ : Type} {v v' : RegionView ρ}

def Inside (v : RegionView ρ) (y : Int) : Prop := v.top ≤ y ∧ y < v.bottom

instance (v : RegionView ρ) (y : Int) : Decidable (v.Inside y) :=
  inferInstanceAs (Decidable (_ ∧ _))

/-- The cursor moves by a row at most, and nothing else happens but to the rows. -/
structure Steps (v v' : RegionView ρ) : Prop where
  history : v'.history = v.history
  scrolls : v'.scrolls = v.scrolls
  up : v.cursor - 1 ≤ v'.cursor
  down : v'.cursor ≤ v.cursor + 1
  onScreen : 0 ≤ v'.cursor ∧ v'.cursor < v.rows.length

/-- A region and the rest of the screen do not reach into one another. -/
structure Locks (v v' : RegionView ρ) : Prop where
  inside : v.Inside v.cursor → ∀ y : Nat, ¬ v.Inside y → v'.rows[y]? = v.rows[y]?
  outside : ¬ v.Inside v.cursor → v.Steps v' ∧ ∀ y : Nat, v.Inside y → v'.rows[y]? = v.rows[y]?

/-- The way an operation moves the cursor, or a character that wraps. -/
inductive Move
  | down
  | up
  | wrap

/-- The cursor is outside, and the region lies ahead of it. -/
def Ahead (v : RegionView ρ) : Move → Prop
  | .down | .wrap => v.cursor < v.top
  | .up => v.bottom ≤ v.cursor

/-- `Locks`, but not for a cursor that moves away from the region; and a character that wraps
is put into the row below the cursor, be it in the region or not. -/
structure LocksAhead (m : Move) (v v' : RegionView ρ) : Prop where
  inside : v.Inside v.cursor → ∀ y : Nat, ¬ v.Inside y → v'.rows[y]? = v.rows[y]?
  outside : v.Ahead m → v.Steps v' ∧
    ∀ y : Nat, v.Inside y → (m = .wrap → (y : Int) ≠ v.cursor + 1) → v'.rows[y]? = v.rows[y]?

theorem not_inside_of_ahead {m : Move} (h : v.Ahead m) : ¬ v.Inside v.cursor := by
  rintro ⟨htop, hbottom⟩
  cases m with
  | down => exact absurd h (Int.not_lt.mpr htop)
  | up => exact absurd h (Int.not_le.mpr hbottom)
  | wrap => exact absurd h (Int.not_lt.mpr htop)

theorem locksAhead_of_inside {m : Move} (hin : v.Inside v.cursor)
    (h : ∀ y : Nat, ¬ v.Inside y → v'.rows[y]? = v.rows[y]?) : LocksAhead m v v' :=
  ⟨fun _ => h, fun hahead => absurd hin (not_inside_of_ahead hahead)⟩

theorem locksAhead_of_not {m : Move} (hin : ¬ v.Inside v.cursor) (hahead : ¬ v.Ahead m) :
    LocksAhead m v v' :=
  ⟨fun h => absurd h hin, fun h => absurd h hahead⟩

/-- Nothing but the cursor moves. -/
theorem locksAhead_of_moved {m : Move} {row : Int} (hup : v.cursor - 1 ≤ row)
    (hdown : row ≤ v.cursor + 1) (hlo : 0 ≤ row) (hhi : row < v.rows.length) :
    LocksAhead m v { v with cursor := row } :=
  ⟨fun _ _ _ => rfl, fun _ => ⟨⟨rfl, rfl, hup, hdown, hlo, hhi⟩, fun _ _ _ => rfl⟩⟩

theorem locksAhead_wrap (hahead : v.cursor < v.top) (hsteps : v.Steps v')
    (h : ∀ y : Nat, (y : Int) ≠ v.cursor → (y : Int) ≠ v.cursor + 1 → v'.rows[y]? = v.rows[y]?) :
    LocksAhead .wrap v v' where
  inside hin := absurd hin (@not_inside_of_ahead _ v .wrap hahead)
  outside _ := by
    refine ⟨hsteps, fun y hy hne => h y ?_ (hne rfl)⟩
    have htop := hy.1
    omega

section Decidable

variable [DecidableEq ρ]

omit [DecidableEq ρ] in
/-- Behind the last row of both there is nothing to compare. -/
theorem rows_iff {p : Nat → Prop} : (∀ y : Nat, p y → v'.rows[y]? = v.rows[y]?) ↔
    ∀ y < max v.rows.length v'.rows.length, p y → v'.rows[y]? = v.rows[y]? := by
  refine ⟨fun h y _ => h y, fun h y hy => ?_⟩
  by_cases hlt : y < max v.rows.length v'.rows.length
  · exact h y hlt hy
  · rw [List.getElem?_eq_none (by omega), List.getElem?_eq_none (by omega)]

instance : Decidable (v.Steps v') :=
  decidable_of_iff (v'.history = v.history ∧ v'.scrolls = v.scrolls ∧ v.cursor - 1 ≤ v'.cursor ∧
      v'.cursor ≤ v.cursor + 1 ∧ 0 ≤ v'.cursor ∧ v'.cursor < v.rows.length)
    ⟨fun ⟨h1, h2, h3, h4, h5⟩ => ⟨h1, h2, h3, h4, h5⟩, fun ⟨h1, h2, h3, h4, h5⟩ =>
      ⟨h1, h2, h3, h4, h5⟩⟩

instance : Decidable (v.Locks v') :=
  decidable_of_iff
    ((v.Inside v.cursor → ∀ y < max v.rows.length v'.rows.length,
        ¬ v.Inside y → v'.rows[y]? = v.rows[y]?) ∧
      (¬ v.Inside v.cursor → v.Steps v' ∧ ∀ y < max v.rows.length v'.rows.length,
        v.Inside y → v'.rows[y]? = v.rows[y]?))
    ⟨fun ⟨hin, hout⟩ => ⟨fun h => rows_iff.mpr (hin h), fun h =>
        ⟨(hout h).1, rows_iff.mpr (hout h).2⟩⟩,
      fun ⟨hin, hout⟩ => ⟨fun h => rows_iff.mp (hin h), fun h =>
        ⟨(hout h).1, rows_iff.mp (hout h).2⟩⟩⟩

end Decidable

end RegionView

namespace ScrollBuffer

variable {κ : Type} {b b' b'' : ScrollBuffer κ} {R R' : Nat → Prop}

/-- `b'` is `b`, but for the rows of `R` on the screen. -/
structure EditsRows (R : Nat → Prop) (b b' : ScrollBuffer κ) : Prop where
  columns : b'.columns = b.columns
  history : b'.history = b.history
  length : b'.screen.length = b.screen.length
  kept : ∀ y : Nat, ¬ R y → b'.screen[y]? = b.screen[y]?

theorem EditsRows.refl (R : Nat → Prop) (b : ScrollBuffer κ) : EditsRows R b b :=
  ⟨rfl, rfl, rfl, fun _ _ => rfl⟩

theorem EditsRows.trans (h : EditsRows R b b') (h' : EditsRows R b' b'') : EditsRows R b b'' where
  columns := h'.columns.trans h.columns
  history := h'.history.trans h.history
  length := h'.length.trans h.length
  kept y hy := (h'.kept y hy).trans (h.kept y hy)

theorem EditsRows.mono (h : EditsRows R b b') (hR : ∀ y, R y → R' y) : EditsRows R' b b' :=
  { h with kept := fun y hy => h.kept y fun hy' => hy (hR y hy') }

theorem editsRows_modifyRow (b : ScrollBuffer κ) {y : Nat} (hy : R y) (f : Row κ → Row κ) :
    EditsRows R b (b.modifyRow y f) := by
  unfold modifyRow
  rw [if_neg (by omega), Int.toNat_natCast]
  refine ⟨rfl, rfl, List.length_modify _ _ _, fun y' hy' => ?_⟩
  have hne : y ≠ y' := by
    rintro rfl
    exact hy' hy
  show (b.screen.modify y f)[y']? = _
  exact List.getElem?_modify_ne f b.screen hne

theorem editsRows_overwrite (b : ScrollBuffer κ) (sx w : Nat) {sy h : Nat}
    (f : Nat → Nat → κ → κ) (hR : ∀ y, sy ≤ y → y < sy + h → R y) :
    EditsRows R b (b.overwrite sx sy w h f) := by
  refine ⟨rfl, rfl, length_screen_overwrite _ _ _ _ _ _, fun y hy => ?_⟩
  rw [getElem?_screen_overwrite]
  simp only [if_neg fun hin : sy ≤ y ∧ y < sy + h => hy (hR y hin.1 hin.2), Option.map_id']

/-- The rows around the region stay. -/
theorem screen_scroll_of_outside {top bottom y : Nat} {v : κ} (hmargins : top < bottom)
    (hbottom : bottom ≤ b.screen.length) (hy : y < top ∨ bottom ≤ y) :
    (b.scroll top bottom v).screen[y]? = b.screen[y]? := by
  rw [getElem?_screen_scroll hmargins hbottom, if_neg (by omega), if_neg (by omega)]

end ScrollBuffer

end Kbox.Framework
