import Kbox.Framework.ListEdits
import Kbox.Session.ScreenRefinement
import Kbox.Session.TerminalEmulator

/-!
# Inserting and deleting characters and lines

ICH, DCH, IL and DL are a block copy and a block clear.  On the cells of the
screen each of them is one edit of a list: of the row of the cursor, or of the
rows of the scrolling region from the cursor on.
-/

namespace Kbox.Framework.ScrollBuffer

variable {κ : Type} {b : ScrollBuffer κ} {v : κ}

/-! ## §1  Block operations as list edits -/

/-- Every row is as wide as the screen. -/
def Rectangular (b : ScrollBuffer κ) : Prop :=
  ∀ (y : Nat) (l : List κ), b.cells[y]? = some l → l.length = b.columns

theorem Rectangular.cell? (hb : b.Rectangular) {y x : Nat} (hy : y < b.cells.length)
    (hx : x < b.columns) : ∃ a, b.cell? y x = some a := by
  have hrow := hb y b.cells[y] (List.getElem?_eq_getElem hy)
  refine ⟨b.cells[y][x], ?_⟩
  rw [cell?_eq, List.getElem?_eq_getElem hy, Option.bind_some,
    List.getElem?_eq_getElem (by rw [hrow]; exact hx)]

theorem Rectangular.cell?_none (hb : b.Rectangular) {y x : Nat} (hx : b.columns ≤ x) :
    b.cell? y x = none := by
  rw [cell?_eq]
  cases hrow : b.cells[y]? with
  | none => rfl
  | some l =>
      have hlength := hb y l hrow
      rw [Option.bind_some, List.getElem?_eq_none (by omega)]

/-- A block copy and a block clear behind it. -/
def moveAndClear (b : ScrollBuffer κ) (sx sy w h dx dy cx cy cw ch : Nat) (v : κ) :
    ScrollBuffer κ :=
  (b.blockCopy sx sy w h dx dy).blockSet cx cy cw ch v

theorem cell?_moveAndClear (b : ScrollBuffer κ) (sx sy w h dx dy cx cy cw ch : Nat) (v : κ)
    (y x : Nat) :
    (b.moveAndClear sx sy w h dx dy cx cy cw ch v).cell? y x =
      if (cy ≤ y ∧ y < cy + ch) ∧ cx ≤ x ∧ x < cx + cw then (b.cell? y x).map fun _ => v
      else if (dy ≤ y ∧ y < dy + h) ∧ dx ≤ x ∧ x < dx + w then
        (b.cell? y x).map fun c => (b.cell? (sy + (y - dy)) (sx + (x - dx))).getD c
      else b.cell? y x := by
  unfold moveAndClear
  rw [cell?_blockSet, cell?_blockCopy]
  split_ifs with hclear hcopy
  · cases b.cell? y x <;> rfl
  · rfl
  · rfl
  · rfl

theorem length_cells_moveAndClear (b : ScrollBuffer κ) (sx sy w h dx dy cx cy cw ch : Nat)
    (v : κ) : (b.moveAndClear sx sy w h dx dy cx cy cw ch v).cells.length = b.cells.length := by
  rw [length_cells, length_cells]
  exact (length_screen_overwrite _ _ _ _ _ _).trans (length_screen_overwrite _ _ _ _ _ _)

theorem marks_moveAndClear (b : ScrollBuffer κ) (sx sy w h dx dy cx cy cw ch : Nat) (v : κ) :
    (b.moveAndClear sx sy w h dx dy cx cy cw ch v).marks = b.marks :=
  (marks_overwrite _ _ _ _ _ _).trans (marks_overwrite _ _ _ _ _ _)

/-- Two screens of the same height with the same cells. -/
theorem cells_eq {rows : List (List κ)} (hlength : b.cells.length = rows.length)
    (h : ∀ y x : Nat, y < b.cells.length → b.cell? y x = rows[y]?.bind (·[x]?)) :
    b.cells = rows :=
  ext_rows hlength fun y x hy => (cell?_eq b y x).symm.trans (h y x hy)

/-- An edit of one row. -/
theorem cells_modify_eq {b' : ScrollBuffer κ} {f : List κ → List κ} {r : Nat}
    (hlength : b'.cells.length = b.cells.length)
    (hother : ∀ y x : Nat, y ≠ r → b'.cell? y x = b.cell? y x)
    (hrow : ∀ (l : List κ) (x : Nat), b.cells[r]? = some l → b'.cell? r x = (f l)[x]?) :
    b'.cells = b.cells.modify r f := by
  refine cells_eq (by rw [hlength, List.length_modify]) fun y x hy => ?_
  rw [List.getElem?_modify]
  by_cases hyr : r = y
  · subst hyr
    rw [hlength] at hy
    rw [hrow _ x (List.getElem?_eq_getElem hy), List.getElem?_eq_getElem hy]
    simp only [if_true, Option.map_eq_map, Option.map_some, Option.bind_some]
  · rw [hother y x (Ne.symm hyr), cell?_eq]
    simp only [if_neg hyr]
    cases b.cells[y]? <;> rfl

theorem cells_insertChars (hb : b.Rectangular) {r c k : Nat} (hr : r < b.cells.length)
    (hk : c + k ≤ b.columns) :
    (b.moveAndClear c r (b.columns - c - k) 1 (c + k) r c r k 1 v).cells =
      b.cells.modify r (insertBlanks c k v) := by
  refine cells_modify_eq (length_cells_moveAndClear _ _ _ _ _ _ _ _ _ _ _ _) ?_ ?_
  · intro y x hy
    rw [cell?_moveAndClear, if_neg (by omega), if_neg (by omega)]
  · intro l x hl
    have hlength := hb r l hl
    have hread (x : Nat) : b.cell? r x = l[x]? := by
      rw [cell?_eq, hl]
      rfl
    rw [cell?_moveAndClear, getElem?_insertBlanks (by omega), hlength]
    by_cases hfront : x < c
    · rw [if_neg (by omega), if_neg (by omega), if_pos hfront, hread]
    · rw [if_neg hfront]
      by_cases hblank : x < c + k
      · obtain ⟨a, ha⟩ := hb.cell? hr (show x < b.columns by omega)
        rw [if_pos (by omega), if_pos hblank, ha]
        rfl
      · rw [if_neg (by omega), if_neg hblank]
        by_cases hin : x < b.columns
        · obtain ⟨a, ha⟩ := hb.cell? hr hin
          obtain ⟨a', ha'⟩ := hb.cell? hr (show x - k < b.columns by omega)
          have hsource : b.cell? (r + (r - r)) (c + (x - (c + k))) = some a' := by
            rw [Nat.sub_self, Nat.add_zero, show c + (x - (c + k)) = x - k by omega]
            exact ha'
          rw [if_pos (by omega), if_pos hin, ha, hsource, ← hread, ha']
          rfl
        · rw [if_neg (by omega), if_neg hin, hb.cell?_none (by omega)]

theorem cells_deleteChars (hb : b.Rectangular) {r c k : Nat} (hr : r < b.cells.length)
    (hk : c + k ≤ b.columns) :
    (b.moveAndClear (c + k) r (b.columns - c - k) 1 c r (b.columns - k) r k 1 v).cells =
      b.cells.modify r (removeElements c k v) := by
  refine cells_modify_eq (length_cells_moveAndClear _ _ _ _ _ _ _ _ _ _ _ _) ?_ ?_
  · intro y x hy
    rw [cell?_moveAndClear, if_neg (by omega), if_neg (by omega)]
  · intro l x hl
    have hlength := hb r l hl
    have hread (x : Nat) : b.cell? r x = l[x]? := by
      rw [cell?_eq, hl]
      rfl
    rw [cell?_moveAndClear, getElem?_removeElements (by omega), hlength]
    by_cases hfront : x < c
    · rw [if_neg (by omega), if_neg (by omega), if_pos hfront, hread]
    · rw [if_neg hfront]
      by_cases hmoved : x + k < b.columns
      · obtain ⟨a, ha⟩ := hb.cell? hr (show x < b.columns by omega)
        obtain ⟨a', ha'⟩ := hb.cell? hr hmoved
        have hsource : b.cell? (r + (r - r)) (c + k + (x - c)) = some a' := by
          rw [Nat.sub_self, Nat.add_zero, show c + k + (x - c) = x + k by omega]
          exact ha'
        rw [if_neg (by omega), if_pos (by omega), if_pos hmoved, ha, hsource, ← hread, ha']
        rfl
      · rw [if_neg hmoved]
        by_cases hin : x < b.columns
        · obtain ⟨a, ha⟩ := hb.cell? hr hin
          rw [if_pos (by omega), if_pos hin, ha]
          rfl
        · rw [if_neg (by omega), if_neg (by omega), if_neg hin, hb.cell?_none (by omega)]

/-- A blank row, cell by cell. -/
theorem Rectangular.blankRow (hb : b.Rectangular) {y : Nat} (hy : y < b.cells.length) (x : Nat) :
    ((b.cell? y x).map fun _ => v) = (List.replicate b.columns v)[x]? := by
  by_cases hx : x < b.columns
  · obtain ⟨a, ha⟩ := hb.cell? hy hx
    rw [ha, List.getElem?_replicate, if_pos hx]
    rfl
  · rw [hb.cell?_none (by omega), List.getElem?_replicate, if_neg hx]
    rfl

/-- A row that a block copy took whole, cell by cell. -/
theorem Rectangular.movedRow (hb : b.Rectangular) {y y' : Nat} (hy : y < b.cells.length)
    (hy' : y' < b.cells.length) (x : Nat) :
    ((b.cell? y x).map fun c => (b.cell? y' x).getD c) = b.cell? y' x := by
  by_cases hx : x < b.columns
  · obtain ⟨a, ha⟩ := hb.cell? hy hx
    obtain ⟨a', ha'⟩ := hb.cell? hy' hx
    rw [ha, ha']
    rfl
  · rw [hb.cell?_none (by omega), hb.cell?_none (by omega)]
    rfl

/-- `moveAndClear` for whole rows. -/
theorem cell?_moveAndClear_rows (hb : b.Rectangular) {sy h dy cy ch y : Nat}
    (hy : y < b.cells.length) (hsource : dy ≤ y → y < dy + h → sy + (y - dy) < b.cells.length)
    (x : Nat) :
    (b.moveAndClear 0 sy b.columns h 0 dy 0 cy b.columns ch v).cell? y x =
      if cy ≤ y ∧ y < cy + ch then (List.replicate b.columns v)[x]?
      else if dy ≤ y ∧ y < dy + h then b.cell? (sy + (y - dy)) x
      else b.cell? y x := by
  rw [cell?_moveAndClear, Nat.sub_zero, Nat.zero_add]
  by_cases hx : x < b.columns
  · simp only [Nat.zero_le, Nat.zero_add, hx, and_true]
    split_ifs with hclear hmove
    · exact hb.blankRow hy x
    · exact hb.movedRow hy (hsource hmove.1 hmove.2) x
    · rfl
  · rw [if_neg (by omega), if_neg (by omega), hb.cell?_none (by omega), hb.cell?_none (by omega),
      List.getElem?_eq_none (by rw [List.length_replicate]; omega)]
    split_ifs <;> rfl

theorem cells_insertLines (hb : b.Rectangular) {r k bottom : Nat} (hk : r + k ≤ bottom)
    (hbottom : bottom ≤ b.cells.length) :
    (b.moveAndClear 0 r b.columns (bottom - r - k) 0 (r + k) 0 r b.columns k v).cells =
      insertBlanks r k (List.replicate b.columns v) (b.cells.take bottom) ++
        b.cells.drop bottom := by
  have htake : (b.cells.take bottom).length = bottom := by
    rw [List.length_take]
    omega
  have hinsert : (insertBlanks r k (List.replicate b.columns v) (b.cells.take bottom)).length =
      bottom := (length_insertBlanks (by rw [htake]; exact hk)).trans htake
  refine cells_eq ?_ fun y x hy => ?_
  · rw [length_cells_moveAndClear, List.length_append, hinsert, List.length_drop]
    omega
  · rw [length_cells_moveAndClear] at hy
    rw [cell?_moveAndClear_rows hb hy (fun h1 h2 => by omega), List.getElem?_append, hinsert,
      getElem?_insertBlanks (by rw [htake]; exact hk), htake, List.getElem?_take,
      List.getElem?_take, List.getElem?_drop, cell?_eq, cell?_eq]
    by_cases hregion : y < bottom
    · rw [if_pos hregion, if_pos hregion, if_pos hregion]
      by_cases hfront : y < r
      · rw [if_neg (by omega), if_neg (by omega), if_pos hfront]
      · rw [if_neg hfront]
        by_cases hblank : y < r + k
        · rw [if_pos (by omega), if_pos hblank, Option.bind_some]
        · rw [if_neg (by omega), if_pos (by omega), if_neg hblank, if_pos (by omega),
            show r + (y - (r + k)) = y - k by omega]
    · rw [if_neg hregion, if_neg (by omega), if_neg (by omega),
        show bottom + (y - bottom) = y by omega]

theorem cells_deleteLines (hb : b.Rectangular) {r k bottom : Nat} (hk : r + k ≤ bottom)
    (hbottom : bottom ≤ b.cells.length) :
    (b.moveAndClear 0 (r + k) b.columns (bottom - r - k) 0 r 0 (bottom - k) b.columns k v).cells =
      removeElements r k (List.replicate b.columns v) (b.cells.take bottom) ++
        b.cells.drop bottom := by
  have htake : (b.cells.take bottom).length = bottom := by
    rw [List.length_take]
    omega
  have hremove : (removeElements r k (List.replicate b.columns v)
      (b.cells.take bottom)).length = bottom :=
    (length_removeElements (by rw [htake]; exact hk)).trans htake
  refine cells_eq ?_ fun y x hy => ?_
  · rw [length_cells_moveAndClear, List.length_append, hremove, List.length_drop]
    omega
  · rw [length_cells_moveAndClear] at hy
    rw [cell?_moveAndClear_rows hb hy (fun h1 h2 => by omega), List.getElem?_append, hremove,
      getElem?_removeElements (by rw [htake]; exact hk), htake, List.getElem?_take,
      List.getElem?_take, List.getElem?_drop, cell?_eq, cell?_eq]
    by_cases hregion : y < bottom
    · rw [if_pos hregion, if_pos hregion, if_pos hregion]
      by_cases hfront : y < r
      · rw [if_neg (by omega), if_neg (by omega), if_pos hfront]
      · rw [if_neg hfront]
        by_cases hmoved : y + k < bottom
        · rw [if_neg (by omega), if_pos (by omega), if_pos hmoved, if_pos hmoved,
            show r + k + (y - r) = y + k by omega]
        · rw [if_pos (by omega), if_neg hmoved, Option.bind_some]
    · rw [if_neg hregion, if_neg (by omega), if_neg (by omega),
        show bottom + (y - bottom) = y by omega]

end Kbox.Framework.ScrollBuffer

namespace Kbox.Session

open Kbox.Framework

namespace TranscriptScreen

theorem rectangular_toBuffer {s : TranscriptScreen} (hs : s.WellFormed) :
    s.toBuffer.Rectangular := by
  intro y l hl
  unfold ScrollBuffer.cells toBuffer at hl
  simp only [List.getElem?_map] at hl
  by_cases hy : y < s.mScreenRows
  · rw [List.getElem?_range hy] at hl
    obtain rfl := Option.some.inj hl
    exact length_rowAt hs.toAllocated (Nat.lt_trans hy hs.screen_lt)
  · rw [List.getElem?_eq_none (by rw [List.length_range]; omega)] at hl
    cases hl

theorem length_cells_toBuffer (s : TranscriptScreen) :
    s.toBuffer.cells.length = s.mScreenRows := by
  rw [ScrollBuffer.length_cells]
  simp only [toBuffer, List.length_map, List.length_range]

end TranscriptScreen

namespace TerminalEmulator

/-! ## §2  The emulator over the buffer -/

/-- The screen as rows of cells. -/
def buffer (s : TerminalEmulator) : ScrollBuffer JChar := s.mScreen.toBuffer

/-- A blank in the colours in force. -/
def blank (s : TerminalEmulator) : JChar :=
  TranscriptScreen.encode 32 s.getForeColor s.getBackColor

/-- The screen is what the emulator takes it for. -/
structure Consistent (s : TerminalEmulator) : Prop where
  screen : s.mScreen.WellFormed
  columns : (s.mScreen.mColumns : Int) = s.mColumns
  rows : (s.mScreen.mScreenRows : Int) = s.mRows

/-- `t` is `s` with another screen. -/
structure Draws (s : TerminalEmulator) (b : ScrollBuffer JChar) (t : TerminalEmulator) :
    Prop where
  fields : ∃ screen, t = { s with mScreen := screen }
  screen : t.mScreen.WellFormed
  buffer : t.buffer = b

variable {s t : TerminalEmulator}

theorem blockCopy_draws (hs : Consistent s) {sx sy w h dx dy : Nat}
    (hsx : sx + w ≤ s.mScreen.mColumns) (hsy : sy + h ≤ s.mScreen.mScreenRows)
    (hdx : dx + w ≤ s.mScreen.mColumns) (hdy : dy + h ≤ s.mScreen.mScreenRows) :
    returns (onScreen (TranscriptScreen.blockCopy sx sy w h dx dy))
      (fun _ t => Draws s (s.buffer.blockCopy sx sy w h dx dy) t) s := by
  unfold onScreen returns
  rw [wp_onField]
  exact wp_mono (TranscriptScreen.blockCopy_toBuffer hs.screen hsx hsy hdx hdy)
    (fun _ _ h => ⟨⟨_, rfl⟩, h.1, h.2⟩) fun _ _ h => h

theorem blockClear_draws (hs : Consistent s) {sx sy w h : Nat}
    (hx : sx + w ≤ s.mScreen.mColumns) (hy : sy + h ≤ s.mScreen.mScreenRows) :
    returns (blockClear sx sy w h)
      (fun _ t => Draws s (s.buffer.blockSet sx sy w h s.blank) t) s := by
  unfold blockClear onScreen returns
  rw [wp_bind, wp_get, wp_onField]
  exact wp_mono (TranscriptScreen.blockSet_toBuffer hs.screen 32 s.getForeColor s.getBackColor
    hx hy) (fun _ _ h => ⟨⟨_, rfl⟩, h.1, h.2⟩) fun _ _ h => h

theorem Draws.blank_eq {b : ScrollBuffer JChar} (h : Draws s b t) : t.blank = s.blank := by
  obtain ⟨_, rfl⟩ := h.fields
  rfl

/-- The sizes of a buffer are those of the screen. -/
theorem Draws.consistent {b : ScrollBuffer JChar} (h : Draws s b t) (hs : Consistent s)
    (hcolumns : b.columns = s.buffer.columns) (hrows : b.cells.length = s.buffer.cells.length) :
    Consistent t := by
  have htcolumns : t.mScreen.mColumns = s.mScreen.mColumns := by
    rw [← h.buffer] at hcolumns
    exact hcolumns
  have htrows : t.mScreen.mScreenRows = s.mScreen.mScreenRows := by
    rw [← h.buffer] at hrows
    rw [← TranscriptScreen.length_cells_toBuffer, ← TranscriptScreen.length_cells_toBuffer]
    exact hrows
  refine ⟨h.screen, ?_, ?_⟩
  · rw [htcolumns, hs.columns]
    obtain ⟨_, rfl⟩ := h.fields
    rfl
  · rw [htrows, hs.rows]
    obtain ⟨_, rfl⟩ := h.fields
    rfl

theorem moveAndClear_draws (hs : Consistent s) {sx sy w h dx dy cx cy cw ch : Nat}
    (hsx : sx + w ≤ s.mScreen.mColumns) (hsy : sy + h ≤ s.mScreen.mScreenRows)
    (hdx : dx + w ≤ s.mScreen.mColumns) (hdy : dy + h ≤ s.mScreen.mScreenRows)
    (hcx : cx + cw ≤ s.mScreen.mColumns) (hcy : cy + ch ≤ s.mScreen.mScreenRows) :
    returns (do
        onScreen (TranscriptScreen.blockCopy sx sy w h dx dy)
        blockClear cx cy cw ch)
      (fun _ t => Draws s (s.buffer.moveAndClear sx sy w h dx dy cx cy cw ch s.blank) t) s := by
  unfold returns
  rw [wp_bind]
  refine wp_mono (blockCopy_draws hs hsx hsy hdx hdy) (fun _ t ht => ?_) fun _ _ h => h
  have hcolumns : (s.buffer.blockCopy sx sy w h dx dy).columns = s.buffer.columns := rfl
  have hrows : (s.buffer.blockCopy sx sy w h dx dy).cells.length = s.buffer.cells.length := by
    rw [ScrollBuffer.length_cells, ScrollBuffer.length_cells]
    exact ScrollBuffer.length_screen_overwrite _ _ _ _ _ _
  have htcons := ht.consistent hs hcolumns hrows
  have htcolumns := htcons.columns
  have htrows := htcons.rows
  have hfields := ht.fields
  obtain ⟨_, hfields⟩ := hfields
  have hsame : t.mColumns = s.mColumns ∧ t.mRows = s.mRows := by
    rw [hfields]
    exact ⟨rfl, rfl⟩
  rw [hsame.1, ← hs.columns] at htcolumns
  rw [hsame.2, ← hs.rows] at htrows
  refine wp_mono (blockClear_draws htcons (by omega) (by omega)) (fun _ u hu => ?_) fun _ _ h => h
  refine ⟨?_, hu.screen, ?_⟩
  · obtain ⟨_, hu'⟩ := hu.fields
    rw [hu', hfields]
    exact ⟨_, rfl⟩
  · rw [hu.buffer, ht.buffer, ht.blank_eq]
    rfl

/-! ## §3  The four sequences -/

/-- The cursor is on the screen and inside the scrolling region. -/
structure Editable (s : TerminalEmulator) : Prop extends Consistent s where
  column : 0 ≤ s.mCursorCol ∧ s.mCursorCol < s.mColumns
  region : 0 ≤ s.mTopMargin ∧ s.mTopMargin ≤ s.mCursorRow ∧ s.mCursorRow < s.mBottomMargin ∧
    s.mBottomMargin ≤ s.mRows

/-- The cursor, the bottom margin and the parameter as natural numbers. -/
structure EditsAt (s : TerminalEmulator) (r c bottom n : Nat) : Prop where
  row : s.mCursorRow = r
  column : s.mCursorCol = c
  margin : s.mBottomMargin = bottom
  parameter : s.getArg0 1 = n
  row_lt : r < bottom
  bottom_le : bottom ≤ s.mScreen.mScreenRows
  column_lt : c < s.mScreen.mColumns

theorem getArg0_nonneg (s : TerminalEmulator) : 0 ≤ s.getArg0 1 := by
  unfold getArg0 getArg
  split_ifs <;> omega

theorem Editable.editsAt (h : Editable s) :
    EditsAt s s.mCursorRow.toNat s.mCursorCol.toNat s.mBottomMargin.toNat (s.getArg0 1).toNat := by
  obtain ⟨htop, hrow, hlt, hle⟩ := h.region
  obtain ⟨hcol, hcol'⟩ := h.column
  have hcolumns := h.columns
  have hrows := h.rows
  have harg := getArg0_nonneg s
  constructor <;> omega

variable {r c bottom n : Nat}

theorem insertChars_draws (hs : Consistent s) (h : EditsAt s r c bottom n) {k : Nat}
    (hk : k = min n (s.mScreen.mColumns - c)) :
    returns insertChars (fun _ t => Draws s (s.buffer.moveAndClear c r
      (s.mScreen.mColumns - c - k) 1 (c + k) r c r k 1 s.blank) t) s := by
  have hlt := h.column_lt
  have hrow := h.row_lt
  have hbottom := h.bottom_le
  have hinsert : min (n : Int) (s.mScreen.mColumns - c) = (k : Int) := by omega
  have hmove : (s.mScreen.mColumns : Int) - c - k = ((s.mScreen.mColumns - c - k : Nat) : Int) := by
    omega
  have hdest : (c : Int) + k = ((c + k : Nat) : Int) := by omega
  unfold insertChars returns
  rw [wp_bind, wp_get]
  simp only [h.row, h.column, h.parameter, ← hs.columns, hinsert, hmove, hdest]
  exact @moveAndClear_draws s hs c r (s.mScreen.mColumns - c - k) 1 (c + k) r c r k 1
    (by omega) (by omega) (by omega) (by omega) (by omega) (by omega)

theorem deleteChars_draws (hs : Consistent s) (h : EditsAt s r c bottom n) {k : Nat}
    (hk : k = min n (s.mScreen.mColumns - c)) :
    returns deleteChars (fun _ t => Draws s (s.buffer.moveAndClear (c + k) r
      (s.mScreen.mColumns - c - k) 1 c r (s.mScreen.mColumns - k) r k 1 s.blank) t) s := by
  have hlt := h.column_lt
  have hrow := h.row_lt
  have hbottom := h.bottom_le
  have hdelete : min (n : Int) (s.mScreen.mColumns - c) = (k : Int) := by omega
  have hmove : (s.mScreen.mColumns : Int) - c - k = ((s.mScreen.mColumns - c - k : Nat) : Int) := by
    omega
  have hsource : (c : Int) + k = ((c + k : Nat) : Int) := by omega
  have hclear : (c : Int) + ((s.mScreen.mColumns - c - k : Nat) : Int) =
      ((s.mScreen.mColumns - k : Nat) : Int) := by omega
  unfold deleteChars returns
  rw [wp_bind, wp_get]
  simp only [h.row, h.column, h.parameter, ← hs.columns, hdelete, hmove, hsource, hclear]
  exact @moveAndClear_draws s hs (c + k) r (s.mScreen.mColumns - c - k) 1 c r
    (s.mScreen.mColumns - k) r k 1
    (by omega) (by omega) (by omega) (by omega) (by omega) (by omega)

theorem insertLines_draws (hs : Consistent s) (h : EditsAt s r c bottom n) {k : Nat}
    (hk : k = min n (bottom - r)) :
    returns insertLines (fun _ t => Draws s (s.buffer.moveAndClear 0 r s.mScreen.mColumns
      (bottom - r - k) 0 (r + k) 0 r s.mScreen.mColumns k s.blank) t) s := by
  have hrow := h.row_lt
  have hbottom := h.bottom_le
  have hinsert : min (n : Int) (bottom - r) = (k : Int) := by omega
  have hmove : (bottom : Int) - r - k = ((bottom - r - k : Nat) : Int) := by omega
  have hdest : (r : Int) + k = ((r + k : Nat) : Int) := by omega
  unfold insertLines returns
  rw [wp_bind, wp_get]
  simp only [h.row, h.margin, h.parameter, ← hs.columns, hinsert, hmove, hdest]
  exact @moveAndClear_draws s hs 0 r s.mScreen.mColumns (bottom - r - k) 0 (r + k) 0 r
    s.mScreen.mColumns k
    (by omega) (by omega) (by omega) (by omega) (by omega) (by omega)

theorem deleteLines_draws (hs : Consistent s) (h : EditsAt s r c bottom n) {k : Nat}
    (hk : k = min n (bottom - r)) :
    returns deleteLines (fun _ t => Draws s (s.buffer.moveAndClear 0 (r + k) s.mScreen.mColumns
      (bottom - r - k) 0 r 0 (bottom - k) s.mScreen.mColumns k s.blank) t) s := by
  have hrow := h.row_lt
  have hbottom := h.bottom_le
  have hdelete : min (n : Int) (bottom - r) = (k : Int) := by omega
  have hmove : (bottom : Int) - r - k = ((bottom - r - k : Nat) : Int) := by omega
  have hsource : (r : Int) + k = ((r + k : Nat) : Int) := by omega
  have hclear : (r : Int) + ((bottom - r - k : Nat) : Int) = ((bottom - k : Nat) : Int) := by
    omega
  unfold deleteLines returns
  rw [wp_bind, wp_get]
  simp only [h.row, h.margin, h.parameter, ← hs.columns, hdelete, hmove, hsource, hclear]
  exact @moveAndClear_draws s hs 0 (r + k) s.mScreen.mColumns (bottom - r - k) 0 r
    0 (bottom - k) s.mScreen.mColumns k
    (by omega) (by omega) (by omega) (by omega) (by omega) (by omega)

/-! ## §4  Exact list edits -/

/-- `t` is `s` with other cells on the screen; the line-wrap marks, the history and all other
fields are those of `s`. -/
structure EditsCells (s : TerminalEmulator) (cells : List (List JChar)) (t : TerminalEmulator) :
    Prop where
  fields : ∃ screen, t = { s with mScreen := screen }
  cells : t.buffer.cells = cells
  marks : t.buffer.marks = s.buffer.marks
  history : t.buffer.history = s.buffer.history

theorem Draws.editsCells {sx sy w h dx dy cx cy cw ch : Nat} {v : JChar}
    (ht : Draws s (s.buffer.moveAndClear sx sy w h dx dy cx cy cw ch v) t)
    {cells : List (List JChar)}
    (hcells : (s.buffer.moveAndClear sx sy w h dx dy cx cy cw ch v).cells = cells) :
    EditsCells s cells t where
  fields := ht.fields
  cells := by rw [ht.buffer, hcells]
  marks := by rw [ht.buffer, ScrollBuffer.marks_moveAndClear]
  history := by
    rw [ht.buffer]
    rfl

theorem EditsCells.trans {u : TerminalEmulator} {cells cells' : List (List JChar)}
    (h : EditsCells s cells t) (h' : EditsCells t cells' u) : EditsCells s cells' u := by
  obtain ⟨_, hfields⟩ := h.fields
  obtain ⟨_, hfields'⟩ := h'.fields
  refine ⟨⟨u.mScreen, ?_⟩, h'.cells, h'.marks.trans h.marks, h'.history.trans h.history⟩
  rw [hfields', hfields]

/-- The parameters of an edit are there for the next one. -/
theorem EditsAt.of_draws (h : EditsAt s r c bottom n) {b : ScrollBuffer JChar}
    (ht : Draws s b t) (hcolumns : b.columns = s.buffer.columns)
    (hrows : b.cells.length = s.buffer.cells.length) : EditsAt t r c bottom n := by
  have htcolumns : t.mScreen.mColumns = s.mScreen.mColumns := by
    rw [← ht.buffer] at hcolumns
    exact hcolumns
  have htrows : t.mScreen.mScreenRows = s.mScreen.mScreenRows := by
    rw [← ht.buffer] at hrows
    rw [← TranscriptScreen.length_cells_toBuffer, ← TranscriptScreen.length_cells_toBuffer]
    exact hrows
  have hbottom := h.bottom_le
  have hcolumn := h.column_lt
  rw [← htrows] at hbottom
  rw [← htcolumns] at hcolumn
  obtain ⟨_, rfl⟩ := ht.fields
  exact ⟨h.row, h.column, h.margin, h.parameter, h.row_lt, hbottom, hcolumn⟩

/-- The state after an edit: the next edit finds what this one found. -/
structure Edited (s : TerminalEmulator) (r c bottom n : Nat) (cells : List (List JChar))
    (t : TerminalEmulator) : Prop extends EditsCells s cells t where
  consistent : Consistent t
  parameters : EditsAt t r c bottom n
  blank_eq : t.blank = s.blank
  columns_eq : t.mScreen.mColumns = s.mScreen.mColumns

theorem EditsAt.edited (h : EditsAt s r c bottom n) (hs : Consistent s)
    {sx sy w h' dx dy cx cy cw ch : Nat} {cells : List (List JChar)}
    (hcells : (s.buffer.moveAndClear sx sy w h' dx dy cx cy cw ch s.blank).cells = cells)
    (ht : Draws s (s.buffer.moveAndClear sx sy w h' dx dy cx cy cw ch s.blank) t) :
    Edited s r c bottom n cells t := by
  have hcolumns : (s.buffer.moveAndClear sx sy w h' dx dy cx cy cw ch s.blank).columns =
      s.buffer.columns := rfl
  have hrows : (s.buffer.moveAndClear sx sy w h' dx dy cx cy cw ch s.blank).cells.length =
      s.buffer.cells.length := ScrollBuffer.length_cells_moveAndClear _ _ _ _ _ _ _ _ _ _ _ _
  refine ⟨ht.editsCells hcells, ht.consistent hs hcolumns hrows, h.of_draws ht hcolumns hrows,
    ht.blank_eq, ?_⟩
  rw [← ht.buffer] at hcolumns
  exact hcolumns

section

variable (hs : Consistent s) (h : EditsAt s r c bottom n)

include hs h

theorem insertChars_edits {k : Nat} (hk : k = min n (s.mScreen.mColumns - c)) :
    returns insertChars (fun _ t => Edited s r c bottom n
      (s.buffer.cells.modify r (insertBlanks c k s.blank)) t) s := by
  have hcolumn := h.column_lt
  have hrow := h.row_lt
  have hbottom := h.bottom_le
  exact wp_mono (insertChars_draws hs h hk) (fun _ t ht => h.edited hs
    (ScrollBuffer.cells_insertChars (TranscriptScreen.rectangular_toBuffer hs.screen)
      (by rw [TranscriptScreen.length_cells_toBuffer]; omega)
      (show c + k ≤ s.mScreen.mColumns by omega)) ht) fun _ _ h => h

theorem deleteChars_edits {k : Nat} (hk : k = min n (s.mScreen.mColumns - c)) :
    returns deleteChars (fun _ t => Edited s r c bottom n
      (s.buffer.cells.modify r (removeElements c k s.blank)) t) s := by
  have hcolumn := h.column_lt
  have hrow := h.row_lt
  have hbottom := h.bottom_le
  exact wp_mono (deleteChars_draws hs h hk) (fun _ t ht => h.edited hs
    (ScrollBuffer.cells_deleteChars (TranscriptScreen.rectangular_toBuffer hs.screen)
      (by rw [TranscriptScreen.length_cells_toBuffer]; omega)
      (show c + k ≤ s.mScreen.mColumns by omega)) ht) fun _ _ h => h

theorem insertLines_edits {k : Nat} (hk : k = min n (bottom - r)) :
    returns insertLines (fun _ t => Edited s r c bottom n
      (insertBlanks r k (List.replicate s.mScreen.mColumns s.blank) (s.buffer.cells.take bottom) ++
        s.buffer.cells.drop bottom) t) s := by
  have hrow := h.row_lt
  have hbottom := h.bottom_le
  exact wp_mono (insertLines_draws hs h hk) (fun _ t ht => h.edited hs
    (ScrollBuffer.cells_insertLines (TranscriptScreen.rectangular_toBuffer hs.screen)
      (by omega) (by rw [TranscriptScreen.length_cells_toBuffer]; omega)) ht) fun _ _ h => h

theorem deleteLines_edits {k : Nat} (hk : k = min n (bottom - r)) :
    returns deleteLines (fun _ t => Edited s r c bottom n
      (removeElements r k (List.replicate s.mScreen.mColumns s.blank)
        (s.buffer.cells.take bottom) ++ s.buffer.cells.drop bottom) t) s := by
  have hrow := h.row_lt
  have hbottom := h.bottom_le
  exact wp_mono (deleteLines_draws hs h hk) (fun _ t ht => h.edited hs
    (ScrollBuffer.cells_deleteLines (TranscriptScreen.rectangular_toBuffer hs.screen)
      (by omega) (by rw [TranscriptScreen.length_cells_toBuffer]; omega)) ht) fun _ _ h => h

/-- Deleting characters where as many were inserted. -/
theorem insertChars_deleteChars_edits {k : Nat} (hk : k = min n (s.mScreen.mColumns - c)) :
    returns (do insertChars; deleteChars) (fun _ t => Edited s r c bottom n
      (s.buffer.cells.modify r fun row =>
        row.take (row.length - k) ++ List.replicate k s.blank) t) s := by
  unfold returns
  rw [wp_bind]
  refine wp_mono (insertChars_edits hs h hk) (fun _ t ht => ?_) fun _ _ h => h
  have hk' : k = min n (t.mScreen.mColumns - c) := by
    rw [ht.columns_eq]
    exact hk
  refine wp_mono (deleteChars_edits ht.consistent ht.parameters hk') (fun _ u hu => ?_)
    fun _ _ h => h
  have hcells : t.buffer.cells.modify r (removeElements c k t.blank) =
      s.buffer.cells.modify r fun row =>
        row.take (row.length - k) ++ List.replicate k s.blank := by
    rw [ht.cells, ht.blank_eq, List.modify_modify_eq]
    apply List.ext_getElem?
    intro y
    rw [List.getElem?_modify, List.getElem?_modify]
    by_cases hy : r = y
    · subst hy
      cases hrow : s.buffer.cells[r]? with
      | none => rfl
      | some row =>
          have hlength : row.length = s.mScreen.mColumns :=
            TranscriptScreen.rectangular_toBuffer hs.screen r row hrow
          have hcolumn := h.column_lt
          have hfits : c + k ≤ row.length := by omega
          simp only [if_true, Function.comp_apply, Option.map_eq_map, Option.map_some,
            removeElements_insertBlanks hfits]
    · simp only [if_neg hy]
  rw [hcells] at hu
  exact ⟨ht.toEditsCells.trans hu.toEditsCells, hu.consistent, hu.parameters,
    hu.blank_eq.trans ht.blank_eq, hu.columns_eq.trans ht.columns_eq⟩

/-- Deleting lines where as many were inserted. -/
theorem insertLines_deleteLines_edits {k : Nat} (hk : k = min n (bottom - r)) :
    returns (do insertLines; deleteLines) (fun _ t => Edited s r c bottom n
      ((s.buffer.cells.take bottom).take (bottom - k) ++
        List.replicate k (List.replicate s.mScreen.mColumns s.blank) ++
          s.buffer.cells.drop bottom) t) s := by
  have hrow := h.row_lt
  have hbottom := h.bottom_le
  have hlength : s.buffer.cells.length = s.mScreen.mScreenRows :=
    TranscriptScreen.length_cells_toBuffer _
  have htake : (s.buffer.cells.take bottom).length = bottom := by
    rw [List.length_take]
    omega
  unfold returns
  rw [wp_bind]
  refine wp_mono (insertLines_edits hs h hk) (fun _ t ht => ?_) fun _ _ h => h
  refine wp_mono (deleteLines_edits ht.consistent ht.parameters hk) (fun _ u hu => ?_) fun _ _ h => h
  have hinsert : (insertBlanks r k (List.replicate s.mScreen.mColumns s.blank)
      (s.buffer.cells.take bottom)).length = bottom :=
    (length_insertBlanks (by omega)).trans htake
  have hfront : t.buffer.cells.take bottom = insertBlanks r k
      (List.replicate s.mScreen.mColumns s.blank) (s.buffer.cells.take bottom) := by
    rw [ht.cells]
    exact List.take_left' hinsert
  have hback : t.buffer.cells.drop bottom = s.buffer.cells.drop bottom := by
    rw [ht.cells]
    exact List.drop_left' hinsert
  rw [hfront, hback, ht.blank_eq, ht.columns_eq, removeElements_insertBlanks (by omega),
    htake] at hu
  exact ⟨ht.toEditsCells.trans hu.toEditsCells, hu.consistent, hu.parameters,
    hu.blank_eq.trans ht.blank_eq, hu.columns_eq.trans ht.columns_eq⟩

end

/-- **Insert and delete are exact list edits**: ICH, DCH, IL and DL with the parameter `n`, and
the deletions behind the insertions of as many. -/
theorem insert_delete_exact (h : Editable s) :
    let n := (s.getArg0 1).toNat
    let c := s.mCursorCol.toNat
    let r := s.mCursorRow.toNat
    let bottom := s.mBottomMargin.toNat
    let chars := min n (s.mColumns.toNat - c)
    let lines := min n (bottom - r)
    let cells := s.buffer.cells
    let blankRow := List.replicate s.mColumns.toNat s.blank
    returns (doEscLeftSquareBracket 64)
        (fun _ t => EditsCells s (cells.modify r (insertBlanks c chars s.blank)) t) s ∧
      returns (doEscLeftSquareBracket 80)
        (fun _ t => EditsCells s (cells.modify r (removeElements c chars s.blank)) t) s ∧
      returns (doEscLeftSquareBracket 76)
        (fun _ t => EditsCells s
          (insertBlanks r lines blankRow (cells.take bottom) ++ cells.drop bottom) t) s ∧
      returns (doEscLeftSquareBracket 77)
        (fun _ t => EditsCells s
          (removeElements r lines blankRow (cells.take bottom) ++ cells.drop bottom) t) s ∧
      returns (do doEscLeftSquareBracket 64; doEscLeftSquareBracket 80)
        (fun _ t => EditsCells s (cells.modify r fun row =>
          row.take (row.length - chars) ++ List.replicate chars s.blank) t) s ∧
      returns (do doEscLeftSquareBracket 76; doEscLeftSquareBracket 77)
        (fun _ t => EditsCells s ((cells.take bottom).take (bottom - lines) ++
          List.replicate lines blankRow ++ cells.drop bottom) t) s := by
  intro n c r bottom chars lines cells blankRow
  have hs := h.toConsistent
  have hat := h.editsAt
  have hwidth : s.mColumns.toNat = s.mScreen.mColumns := by
    have := hs.columns
    omega
  have hchars : chars = min n (s.mScreen.mColumns - c) := by rw [← hwidth]
  have hblank : blankRow = List.replicate s.mScreen.mColumns s.blank := by rw [← hwidth]
  rw [hblank]
  exact ⟨wp_mono (insertChars_edits hs hat hchars) (fun _ _ ht => ht.toEditsCells) fun _ _ h => h,
    wp_mono (deleteChars_edits hs hat hchars) (fun _ _ ht => ht.toEditsCells) fun _ _ h => h,
    wp_mono (insertLines_edits hs hat rfl) (fun _ _ ht => ht.toEditsCells) fun _ _ h => h,
    wp_mono (deleteLines_edits hs hat rfl) (fun _ _ ht => ht.toEditsCells) fun _ _ h => h,
    wp_mono (insertChars_deleteChars_edits hs hat hchars) (fun _ _ ht => ht.toEditsCells)
      fun _ _ h => h,
    wp_mono (insertLines_deleteLines_edits hs hat rfl) (fun _ _ ht => ht.toEditsCells)
      fun _ _ h => h⟩

theorem exists_create {columns totalRows rows : Nat} {P : TerminalEmulator → Prop}
    [DecidablePred P]
    (h : (create columns totalRows rows).map (fun s => decide (P s)) = .ok true) :
    ∃ s, create columns totalRows rows = .ok s ∧ P s := by
  cases hcreate : create columns totalRows rows with
  | error e =>
      rw [hcreate] at h
      cases h
  | ok s =>
      rw [hcreate] at h
      exact ⟨s, rfl, of_decide_eq_true (Except.ok.inj h)⟩

instance (s : TranscriptScreen) : Decidable s.WellFormed :=
  decidable_of_iff (((0 < s.mColumns ∧ s.mScreenRows < s.mTotalRows) ∧
      ((s.mColumns : Int) * s.mTotalRows ≤ intMax ∧ 2 * (s.mTotalRows : Int) ≤ intMax) ∧
      s.mData.length = s.mTotalRows * s.mColumns) ∧
      (s.mActiveTranscriptRows ≤ s.mTotalRows - s.mScreenRows ∧
        s.mActiveRows = s.mScreenRows + s.mActiveTranscriptRows) ∧
      ((s.mActiveTranscriptRows < s.mTotalRows - s.mScreenRows → s.mHead = 0) ∧
        (0 < s.mActiveTranscriptRows → s.mHead < s.mActiveTranscriptRows)) ∧
      s.mLineWrap.length = s.mTotalRows ∧ s.mRowBuffer.length = s.mColumns)
    ⟨fun ⟨⟨⟨hc, hs⟩, ⟨hsize, hrows⟩, hdata⟩, ⟨hle, hactive⟩, ⟨hfill, hhead⟩, hflags, hbuffer⟩ =>
        ⟨⟨⟨hc, hs, hsize, hrows⟩, hdata⟩, hle, hactive, hfill, hhead, hflags, hbuffer⟩,
      fun h => ⟨⟨⟨h.columns_pos, h.screen_lt⟩, ⟨h.size_isInt, h.rows_isInt⟩, h.data_length⟩,
        ⟨h.active_le, h.activeRows⟩, ⟨h.head_filling, h.head_lt⟩, h.flags_length,
        h.buffer_length⟩⟩

instance (s : TerminalEmulator) : Decidable s.Editable :=
  decidable_of_iff ((s.mScreen.WellFormed ∧ (s.mScreen.mColumns : Int) = s.mColumns ∧
      (s.mScreen.mScreenRows : Int) = s.mRows) ∧
      (0 ≤ s.mCursorCol ∧ s.mCursorCol < s.mColumns) ∧
      0 ≤ s.mTopMargin ∧ s.mTopMargin ≤ s.mCursorRow ∧ s.mCursorRow < s.mBottomMargin ∧
        s.mBottomMargin ≤ s.mRows)
    ⟨fun ⟨⟨hscreen, hcolumns, hrows⟩, hcolumn, hregion⟩ =>
        ⟨⟨hscreen, hcolumns, hrows⟩, hcolumn, hregion⟩,
      fun h => ⟨⟨h.screen, h.columns, h.rows⟩, h.column, h.region⟩⟩

/-- `ABCDE`, the cursor put on the `B`, and `ESC [ 1`. -/
def fiveLetters : List Call :=
  [65, 66, 67, 68, 69, 27, 91, 49, 59, 50, 72, 27, 91, 49].map .byte

/-- A row in the colours of the start. -/
def plainRow (l : List Int) : List JChar := l.map fun b => TranscriptScreen.encode b 7 0

theorem insert_delete_exact_five_letters : ∃ s t, create 3 5 2 = .ok s ∧ run fiveLetters s = t ∧
    t.buffer.cells = [plainRow [65, 66, 67], plainRow [68, 69, 32]] ∧
    returns (doEscLeftSquareBracket 64)
      (fun _ u => EditsCells t [plainRow [65, 32, 66], plainRow [68, 69, 32]] u) t ∧
    returns (doEscLeftSquareBracket 80)
      (fun _ u => EditsCells t [plainRow [65, 67, 32], plainRow [68, 69, 32]] u) t ∧
    returns (doEscLeftSquareBracket 76)
      (fun _ u => EditsCells t [plainRow [32, 32, 32], plainRow [65, 66, 67]] u) t ∧
    returns (doEscLeftSquareBracket 77)
      (fun _ u => EditsCells t [plainRow [68, 69, 32], plainRow [32, 32, 32]] u) t ∧
    returns (do doEscLeftSquareBracket 64; doEscLeftSquareBracket 80)
      (fun _ u => EditsCells t [plainRow [65, 66, 32], plainRow [68, 69, 32]] u) t ∧
    returns (do doEscLeftSquareBracket 76; doEscLeftSquareBracket 77)
      (fun _ u => EditsCells t [plainRow [65, 66, 67], plainRow [32, 32, 32]] u) t := by
  obtain ⟨s, hcreate, hedit, hcells, hcursor, hsizes, hargument, hblank⟩ :=
    @exists_create 3 5 2 (fun s => Editable (run fiveLetters s) ∧
        (run fiveLetters s).buffer.cells = [plainRow [65, 66, 67], plainRow [68, 69, 32]] ∧
        ((run fiveLetters s).mCursorRow = 0 ∧ (run fiveLetters s).mCursorCol = 1) ∧
        ((run fiveLetters s).mColumns = 3 ∧ (run fiveLetters s).mBottomMargin = 2) ∧
        (run fiveLetters s).getArg0 1 = 1 ∧
        (run fiveLetters s).blank = TranscriptScreen.encode 32 7 0)
      _ (by decide +kernel)
  have hexact := insert_delete_exact hedit
  rw [hcells, hcursor.1, hcursor.2, hsizes.1, hsizes.2, hargument, hblank] at hexact
  exact ⟨s, _, hcreate, rfl, hcells, hexact⟩

end TerminalEmulator

end Kbox.Session
