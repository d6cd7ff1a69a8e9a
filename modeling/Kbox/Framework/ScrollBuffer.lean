import Mathlib.Tactic.Common
import Mathlib.Data.List.Basic
import Mathlib.Data.List.DropRight

/-!
# Scrollback buffers

What a scrolling screen with history is for, with no storage layout: a list of
remembered rows and a list of screen rows.  A row is its cells and the mark
that says it continues on the next row.  Every operation is a list edit;
`blockCopy` reads the whole source before it writes, so it is a `memmove` of
the rectangle by definition.
-/

namespace Kbox.Framework

/-- A row of cells and its line-wrap mark. -/
structure Row (κ : Type) where
  cells : List κ
  wrap : Bool
deriving DecidableEq, Repr

theorem Row.ext_getElem? {κ : Type} {r r' : Row κ} (hwrap : r.wrap = r'.wrap)
    (hcells : ∀ x : Nat, r.cells[x]? = r'.cells[x]?) : r = r' := by
  obtain ⟨cells, wrap⟩ := r
  obtain ⟨cells', wrap'⟩ := r'
  obtain rfl : cells = cells' := List.ext_getElem? hcells
  obtain rfl : wrap = wrap' := hwrap
  rfl

@[ext] structure ScrollBuffer (κ : Type) where
  columns : Nat
  /-- How many rows of history are kept. -/
  limit : Nat
  history : List (Row κ)
  screen : List (Row κ)
deriving DecidableEq, Repr

namespace ScrollBuffer

variable {κ μ : Type}

/-- An empty history over a screen filled with `v`. -/
def blank (columns limit rows : Nat) (v : κ) : ScrollBuffer κ where
  columns := columns
  limit := limit
  history := []
  screen := List.replicate rows ⟨List.replicate columns v, false⟩

/-- All rows, oldest first. -/
def rows (b : ScrollBuffer κ) : List (Row κ) := b.history ++ b.screen

/-- The row with screen coordinate `row`; negative coordinates are history. -/
def row? (b : ScrollBuffer κ) (row : Int) : Option (Row κ) :=
  if row < 0 then
    if row < -b.history.length then none
    else b.history[(b.history.length + row).toNat]?
  else b.screen[row.toNat]?

def modifyRow (b : ScrollBuffer κ) (row : Int) (f : Row κ → Row κ) :
    ScrollBuffer κ :=
  if row < 0 then
    if row < -b.history.length then b
    else { b with history := b.history.modify (b.history.length + row).toNat f }
  else { b with screen := b.screen.modify row.toNat f }

def set (b : ScrollBuffer κ) (x : Nat) (row : Int) (v : κ) : ScrollBuffer κ :=
  b.modifyRow row fun r => { r with cells := r.cells.set x v }

def setLineWrap (b : ScrollBuffer κ) (row : Int) : ScrollBuffer κ :=
  b.modifyRow row fun r => { r with wrap := true }

/-- Row `top` goes to the history, which forgets its oldest row when it is over
the limit; the rows below it move up, and row `bottom - 1` becomes blank. -/
def scroll (b : ScrollBuffer κ) (top bottom : Nat) (v : κ) : ScrollBuffer κ :=
  { b with
    history := (b.history ++ (b.screen.drop top).take 1).rtake b.limit
    screen := b.screen.take top ++ (b.screen.take bottom).drop (top + 1) ++
      [⟨List.replicate b.columns v, false⟩] ++ b.screen.drop bottom }

def cell? (b : ScrollBuffer κ) (y x : Nat) : Option κ :=
  (b.screen[y]?).bind fun r => r.cells[x]?

/-- Rewrite the cells of the screen rectangle at `(sx, sy)`, given by the new
value at each offset inside it. -/
def overwrite (b : ScrollBuffer κ) (sx sy w h : Nat) (f : Nat → Nat → κ → κ) :
    ScrollBuffer κ :=
  { b with screen := b.screen.mapIdx fun y r =>
      if sy ≤ y ∧ y < sy + h then
        { r with cells := r.cells.mapIdx fun x c =>
            if sx ≤ x ∧ x < sx + w then f (y - sy) (x - sx) c else c }
      else r }

def blockSet (b : ScrollBuffer κ) (sx sy w h : Nat) (v : κ) : ScrollBuffer κ :=
  b.overwrite sx sy w h fun _ _ _ => v

def blockCopy (b : ScrollBuffer κ) (sx sy w h dx dy : Nat) : ScrollBuffer κ :=
  b.overwrite dx dy w h fun i j c => (b.cell? (sy + i) (sx + j)).getD c

/-- Rows are `columns` wide and the history is within its limit. -/
structure Valid (b : ScrollBuffer κ) : Prop where
  history_le : b.history.length ≤ b.limit
  width : ∀ r ∈ b.rows, r.cells.length = b.columns

/-! ## Reading an edited buffer -/

theorem length_screen_scroll {b : ScrollBuffer κ} {top bottom : Nat} {v : κ}
    (h1 : top < bottom) (h2 : bottom ≤ b.screen.length) :
    (b.scroll top bottom v).screen.length = b.screen.length := by
  simp only [scroll, List.length_append, List.length_take, List.length_drop,
    List.length_singleton]
  omega

theorem getElem?_screen_scroll {b : ScrollBuffer κ} {top bottom : Nat} {v : κ}
    (h1 : top < bottom) (h2 : bottom ≤ b.screen.length) (i : Nat) :
    (b.scroll top bottom v).screen[i]? =
      if i + 1 = bottom then some ⟨List.replicate b.columns v, false⟩
      else if top ≤ i ∧ i + 1 < bottom then b.screen[i + 1]?
      else b.screen[i]? := by
  simp only [scroll, List.append_assoc, List.getElem?_append, List.length_take,
    List.length_drop, List.length_singleton, List.getElem?_take,
    List.getElem?_drop]
  have ht : min top b.screen.length = top := by omega
  have hb : min bottom b.screen.length = bottom := by omega
  rw [ht, hb]
  by_cases hlo : i < top
  · rw [if_pos hlo, if_pos hlo, if_neg (by omega), if_neg (by omega)]
  · rw [if_neg hlo]
    by_cases hmid : i + 1 < bottom
    · rw [if_pos (by omega), if_pos (by omega), if_neg (by omega),
        if_pos (by omega)]
      congr 1
      omega
    · rw [if_neg (by omega)]
      by_cases hlast : i + 1 = bottom
      · have hz : i - top - (bottom - (top + 1)) = 0 := by omega
        rw [hz, if_pos (by omega), if_pos hlast]
        rfl
      · rw [if_neg (by omega), if_neg hlast, if_neg (by omega)]
        congr 1
        omega

/-- While there is room the history grows; afterwards it shifts. -/
theorem history_scroll {b : ScrollBuffer κ} {top bottom : Nat} {v : κ} {r : Row κ}
    (hr : b.screen[top]? = some r) (hlim : 0 < b.limit)
    (hlen : b.history.length ≤ b.limit) :
    (b.scroll top bottom v).history =
      (if b.history.length < b.limit then b.history else b.history.drop 1) ++ [r] := by
  have htop : (b.screen.drop top).take 1 = [r] := by
    obtain ⟨hlt, rfl⟩ := List.getElem?_eq_some_iff.mp hr
    rw [List.drop_eq_getElem_cons hlt]
    rfl
  simp only [scroll, htop, List.rtake, List.length_append, List.length_singleton]
  by_cases hroom : b.history.length < b.limit
  · rw [if_pos hroom, show b.history.length + 1 - b.limit = 0 by omega,
      List.drop_zero]
  · rw [if_neg hroom, show b.history.length + 1 - b.limit = 1 by omega,
      List.drop_append_of_le_length (by omega)]

theorem length_screen_overwrite (b : ScrollBuffer κ) (sx sy w h : Nat)
    (f : Nat → Nat → κ → κ) :
    (b.overwrite sx sy w h f).screen.length = b.screen.length := by
  simp [overwrite]

theorem getElem?_screen_overwrite (b : ScrollBuffer κ) (sx sy w h : Nat)
    (f : Nat → Nat → κ → κ) (y : Nat) :
    (b.overwrite sx sy w h f).screen[y]? = (b.screen[y]?).map fun r =>
      if sy ≤ y ∧ y < sy + h then
        { r with cells := r.cells.mapIdx fun x c =>
            if sx ≤ x ∧ x < sx + w then f (y - sy) (x - sx) c else c }
      else r := by
  simp only [overwrite, List.getElem?_mapIdx]

theorem cell?_overwrite (b : ScrollBuffer κ) (sx sy w h : Nat) (f : Nat → Nat → κ → κ)
    (y x : Nat) : (b.overwrite sx sy w h f).cell? y x =
      if (sy ≤ y ∧ y < sy + h) ∧ sx ≤ x ∧ x < sx + w then
        (b.cell? y x).map (f (y - sy) (x - sx))
      else b.cell? y x := by
  unfold cell?
  rw [getElem?_screen_overwrite]
  cases b.screen[y]? with
  | none =>
      split_ifs <;> rfl
  | some r =>
      simp only [Option.map_some, Option.bind_some]
      by_cases hy : sy ≤ y ∧ y < sy + h
      · rw [if_pos hy]
        simp only [List.getElem?_mapIdx]
        by_cases hx : sx ≤ x ∧ x < sx + w
        · simp only [if_pos hx, if_pos (And.intro hy hx)]
        · simp only [if_neg hx, if_neg fun h : (_ ∧ _) ∧ _ => hx h.2, Option.map_id']
      · rw [if_neg hy, if_neg fun h => hy h.1]

theorem cell?_blockSet (b : ScrollBuffer κ) (sx sy w h : Nat) (v : κ) (y x : Nat) :
    (b.blockSet sx sy w h v).cell? y x =
      if (sy ≤ y ∧ y < sy + h) ∧ sx ≤ x ∧ x < sx + w then (b.cell? y x).map fun _ => v
      else b.cell? y x :=
  cell?_overwrite b sx sy w h _ y x

theorem cell?_blockCopy (b : ScrollBuffer κ) (sx sy w h dx dy : Nat) (y x : Nat) :
    (b.blockCopy sx sy w h dx dy).cell? y x =
      if (dy ≤ y ∧ y < dy + h) ∧ dx ≤ x ∧ x < dx + w then
        (b.cell? y x).map fun c => (b.cell? (sy + (y - dy)) (sx + (x - dx))).getD c
      else b.cell? y x :=
  cell?_overwrite b dx dy w h _ y x

/-- The cells of the screen, row by row. -/
def cells (b : ScrollBuffer κ) : List (List κ) := b.screen.map Row.cells

/-- The line-wrap marks of the screen. -/
def marks (b : ScrollBuffer κ) : List Bool := b.screen.map Row.wrap

theorem cell?_eq (b : ScrollBuffer κ) (y x : Nat) :
    b.cell? y x = b.cells[y]?.bind (·[x]?) := by
  unfold cell? cells
  rw [List.getElem?_map]
  cases b.screen[y]? <;> rfl

theorem length_cells (b : ScrollBuffer κ) : b.cells.length = b.screen.length := List.length_map _

theorem marks_overwrite (b : ScrollBuffer κ) (sx sy w h : Nat) (f : Nat → Nat → κ → κ) :
    (b.overwrite sx sy w h f).marks = b.marks := by
  unfold marks
  apply List.ext_getElem?
  intro y
  rw [List.getElem?_map, List.getElem?_map, getElem?_screen_overwrite]
  cases b.screen[y]? with
  | none => rfl
  | some r =>
      simp only [Option.map_some]
      split_ifs <;> rfl

/-! ## Filling a rectangle cell by cell -/

theorem getElem?_screen_blockSet (b : ScrollBuffer κ) (sx sy w h : Nat) (v : κ) (y : Nat) :
    (b.blockSet sx sy w h v).screen[y]? = (b.screen[y]?).map fun r =>
      if sy ≤ y ∧ y < sy + h then
        { r with cells := r.cells.mapIdx fun x c => if sx ≤ x ∧ x < sx + w then v else c }
      else r :=
  getElem?_screen_overwrite _ _ _ _ _ _ _

/-- Nothing is filled yet. -/
theorem blockSet_empty (b : ScrollBuffer κ) {sx sy w h : Nat} (v : κ) (hempty : w = 0 ∨ h = 0) :
    b.blockSet sx sy w h v = b := by
  refine ScrollBuffer.ext rfl rfl rfl (List.ext_getElem? fun y => ?_)
  rw [getElem?_screen_blockSet]
  cases b.screen[y]? with
  | none => rfl
  | some r =>
      by_cases hy : sy ≤ y ∧ y < sy + h
      · have hcells : r.cells.mapIdx (fun x c => if sx ≤ x ∧ x < sx + w then v else c) = r.cells := by
          refine List.ext_getElem? fun x => ?_
          have hout : ¬ (sx ≤ x ∧ x < sx + w) := by omega
          simp only [List.getElem?_mapIdx, if_neg hout, Option.map_id']
        rw [Option.map_some, if_pos hy, hcells]
      · rw [Option.map_some, if_neg hy]

/-- One cell more in the last row. -/
theorem blockSet_set (b : ScrollBuffer κ) (sx y w : Nat) (v : κ) :
    (b.blockSet sx y w 1 v).set (sx + w) y v = b.blockSet sx y (w + 1) 1 v := by
  unfold set modifyRow
  rw [if_neg (by omega), Int.toNat_natCast]
  refine ScrollBuffer.ext rfl rfl rfl (List.ext_getElem? fun k => ?_)
  show ((b.blockSet sx y w 1 v).screen.modify y _)[k]? = _
  rw [List.getElem?_modify, getElem?_screen_blockSet, getElem?_screen_blockSet]
  cases b.screen[k]? with
  | none => rfl
  | some r =>
      simp only [Option.map_some, Option.map_eq_map]
      by_cases hk : y = k
      · subst hk
        rw [if_pos rfl, if_pos (by omega), if_pos (by omega)]
        congr 2
        refine List.ext_getElem? fun x => ?_
        rw [List.getElem?_set, List.getElem?_mapIdx, List.getElem?_mapIdx, List.length_mapIdx]
        by_cases hx : sx + w = x
        · subst hx
          rw [if_pos rfl]
          by_cases hlt : sx + w < r.cells.length
          · rw [if_pos hlt, List.getElem?_eq_getElem hlt, Option.map_some, if_pos (by omega)]
          · rw [if_neg hlt, List.getElem?_eq_none (by omega)]
            rfl
        · rw [if_neg hx]
          congr 1
          funext c
          by_cases hin : sx ≤ x ∧ x < sx + w
          · rw [if_pos hin, if_pos (by omega)]
          · rw [if_neg hin, if_neg (by omega)]
      · rw [if_neg hk, if_neg (by omega), if_neg (by omega)]

/-- One row more. -/
theorem blockSet_row (b : ScrollBuffer κ) (sx sy w h : Nat) (v : κ) :
    (b.blockSet sx sy w h v).blockSet sx (sy + h) w 1 v = b.blockSet sx sy w (h + 1) v := by
  refine ScrollBuffer.ext rfl rfl rfl (List.ext_getElem? fun y => ?_)
  rw [getElem?_screen_blockSet, getElem?_screen_blockSet, getElem?_screen_blockSet]
  cases b.screen[y]? with
  | none => rfl
  | some r =>
      simp only [Option.map_some]
      by_cases hin : sy ≤ y ∧ y < sy + h
      · rw [if_pos hin, if_neg (by omega), if_pos (by omega)]
      · rw [if_neg hin]
        by_cases hlast : y = sy + h
        · rw [if_pos (by omega), if_pos (by omega)]
        · rw [if_neg (by omega), if_neg (by omega)]

end ScrollBuffer

end Kbox.Framework
