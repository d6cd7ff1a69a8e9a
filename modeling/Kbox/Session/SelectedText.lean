import Kbox.Session.CellWrites

/-!
# The text of a selection

`getSelectedText` against the cells that `drawText` highlights: the two agree except for the last
character of a selection that ends in a wrapped row.
-/

namespace Kbox.Session

open Kbox.Framework

/-! ## §1  Pieces of a row -/

section Pieces

variable {α : Type}

theorem filter_zipIdx (l : List α) (lo hi : Int) (k : Nat) :
    ((l.zipIdx k).filter fun c => decide (lo ≤ c.2 ∧ c.2 ≤ hi)).map (·.1) =
      stretch l (lo - k).toNat (hi + 1 - max lo k).toNat := by
  induction l generalizing k with
  | nil => simp [stretch]
  | cons a l ih =>
      rw [List.zipIdx_cons, List.filter_cons]
      have hrest := ih (k + 1)
      by_cases hlo : lo ≤ k
      · have hskip : (lo - k).toNat = 0 := by omega
        have hskip' : (lo - (k + 1 : Nat)).toNat = 0 := by omega
        by_cases hhi : (k : Int) ≤ hi
        · have hcount : (hi + 1 - max lo k).toNat = (hi + 1 - max lo (k + 1 : Nat)).toNat + 1 := by
            omega
          rw [if_pos (by simpa using ⟨hlo, hhi⟩), List.map_cons, hrest, hskip, hskip', hcount]
          rfl
        · have hcount : (hi + 1 - max lo k).toNat = 0 := by omega
          have hcount' : (hi + 1 - max lo (k + 1 : Nat)).toNat = 0 := by omega
          rw [if_neg (by simpa using fun _ => lt_of_not_ge hhi), hrest, hcount, hcount']
          simp [stretch]
      · have hskip : (lo - k).toNat = (lo - (k + 1 : Nat)).toNat + 1 := by omega
        have hcount : max lo (k : Int) = max lo (k + 1 : Nat) := by omega
        rw [if_neg (by simpa using fun h => absurd h hlo), hrest, hskip, hcount]
        rfl

theorem stretch_take (l : List α) (p n m : Nat) :
    stretch (l.take m) p n = stretch l p (min n (m - p)) := by
  unfold stretch
  rw [List.drop_take, List.take_take]

/-- Two ways to fill a list row by row, the one never ahead of the other, are the same if the
lists are. -/
theorem length_flatten_le {β : Type} {f g : β → List α} {l : List β}
    (hle : ∀ b ∈ l, (f b).length ≤ (g b).length) :
    (l.map f).flatten.length ≤ (l.map g).flatten.length ∧
      ((l.map f).flatten.length = (l.map g).flatten.length →
        ∀ b ∈ l, (f b).length = (g b).length) := by
  induction l with
  | nil =>
      refine ⟨Nat.le_refl _, fun _ b hb => ?_⟩
      exact absurd hb List.not_mem_nil
  | cons b l ih =>
      obtain ⟨hb, hl⟩ := List.forall_mem_cons.mp hle
      obtain ⟨hsum, heq⟩ := ih hl
      simp only [List.map_cons, List.flatten_cons, List.length_append, List.forall_mem_cons]
      refine ⟨Nat.add_le_add hb hsum, fun h => ?_⟩
      have hrest : (l.map f).flatten.length = (l.map g).flatten.length := by omega
      exact ⟨by omega, heq hrest⟩

/-- The numbers that the loops over rows and columns run through. -/
theorem range_int (n : Nat) :
    (do let a ← List.range n; pure (a : Int) : List Int) =
      (List.range n).map fun (a : Nat) => (a : Int) := by
  rw [List.map_eq_flatMap]
  rfl

end Pieces

namespace TranscriptScreen

/-! ## §2  What is highlighted -/

/-- `selx1` and `selx2` of `EmulatorView.onDraw`. -/
def selectionBounds (selX1 selY1 selX2 selY2 columns row : Int) : Int × Int :=
  if row ≥ selY1 ∧ row ≤ selY2 then
    (if row = selY1 then selX1 else -1, if row = selY2 then selX2 else columns)
  else (-1, -1)

/-- `drawText` draws column `i` with the background of the cursor. -/
def highlights (selx1 selx2 : Int) (i : Nat) : Bool := decide (selx1 ≤ i ∧ i ≤ selx2)

/-- The characters of a row that are worth copying: all of a wrapped row, and any other row without
its trailing blanks. -/
def copyable (row : Row JChar) : List JChar :=
  let chars := row.cells.map (· &&& 0xff)
  if row.wrap then chars else chars.rdropWhile (· = 32)

/-- The highlighted characters of a row, and the end of its line. -/
def highlightedText (selX1 selY1 selX2 selY2 : Int) (s : TranscriptScreen) (row : Int) :
    List JChar :=
  ((s.toBuffer.row? row).map fun r =>
    let bounds := selectionBounds selX1 selY1 selX2 selY2 s.mColumns row
    ((copyable r).zipIdx.filter fun c => highlights bounds.1 bounds.2 c.2).map (·.1) ++
      if row ≥ selY1 ∧ row ≤ selY2 ∧ ¬ r.wrap then [10] else []).getD []

/-- A selection in reading order, inside the transcript. -/
structure InReadingOrder (s : TranscriptScreen) (selX1 selY1 selX2 selY2 : Int) : Prop where
  rows : -(s.mActiveTranscriptRows : Int) ≤ selY1 ∧ selY1 ≤ selY2 ∧ selY2 < s.mScreenRows
  start : 0 ≤ selX1 ∧ selX1 < s.mColumns
  last : 0 ≤ selX2 ∧ selX2 < s.mColumns
  order : selY1 = selY2 → selX1 ≤ selX2

variable {s : TranscriptScreen} {selX1 selY1 selX2 selY2 : Int}

/-! ## §3  What is copied -/

theorem readRow_eq (hs : Sized s) {r : Nat} (hr : r < s.mTotalRows) :
    readRow ((r * s.mColumns : Nat) : Int) s.mColumns s.mData =
      .ok ((s.rowAt r).cells.map (· &&& 0xff)) := by
  have hin : r * s.mColumns + 1 * s.mColumns ≤ s.mData.length := by
    rw [hs.data_length, ← Nat.add_mul]
    exact Nat.mul_le_mul_right _ hr
  have hcell : ∀ column ∈ (List.range s.mColumns).map fun (a : Nat) => (a : Int),
      (arrayGet (Exn.arrayIndexOutOfBounds .mData) s.mData
        (((r * s.mColumns : Nat) : Int) + column)).map (· &&& 0xff) =
        .ok ((s.mData[r * s.mColumns + column.toNat]?.getD 0) &&& 0xff) := by
    intro column hcolumn
    obtain ⟨x, hx, rfl⟩ := List.mem_map.mp hcolumn
    rw [List.mem_range] at hx
    have hlt : r * s.mColumns + x < s.mData.length := by omega
    rw [← Int.natCast_add, arrayGet_of_lt hlt, Int.toNat_natCast, List.getElem?_eq_getElem hlt]
    rfl
  unfold readRow
  rw [range_int, mapM_ok hcell]
  congr 1
  apply List.ext_getElem?
  intro x
  rw [List.map_map, List.getElem?_map, List.getElem?_map, getElem?_cells_rowAt]
  by_cases hx : x < s.mColumns
  · have hlt : r * s.mColumns + x < s.mData.length := by omega
    rw [List.getElem?_range hx, if_pos hx, cellAt, List.getElem?_eq_getElem hlt]
    simp [hlt]
  · rw [if_neg hx, List.getElem?_eq_none (by simpa using hx)]
    rfl

theorem lastPrintingChar_eq (rowBuffer : List JChar) :
    lastPrintingChar rowBuffer + 1 = ((rowBuffer.rdropWhile (· = 32)).length : Int) := by
  induction rowBuffer using List.reverseRecOn with
  | nil => rfl
  | append_singleton l c ih =>
      have hlast : lastPrintingChar (l ++ [c]) =
          if c ≠ 32 then (l.length : Int) else lastPrintingChar l := by
        unfold lastPrintingChar
        rw [List.zipIdx_append, List.foldl_append]
        simp
      rw [hlast, List.rdropWhile_concat]
      by_cases hc : c = 32
      · rw [if_neg (not_not_intro hc), if_pos (by simpa using hc), ih]
      · rw [if_pos hc, if_neg (by simpa using hc), List.length_append]
        rfl

theorem appended_eq {rowBuffer : List JChar} {start len : Int} (hstart : 0 ≤ start)
    (hlen : 0 ≤ len) (hin : start + len ≤ rowBuffer.length) :
    appended rowBuffer start len = .ok (stretch rowBuffer start.toNat len.toNat) := by
  unfold appended
  rw [if_neg (by omega)]

/-- The highlighted characters as a piece of the row. -/
theorem filter_highlights (l : List JChar) (lo hi : Int) :
    (l.zipIdx.filter fun c => highlights lo hi c.2).map (·.1) =
      stretch l lo.toNat (hi + 1 - max lo 0).toNat := by
  have hpiece := filter_zipIdx l lo hi 0
  rw [show ((0 : Nat) : Int) = 0 from rfl, Int.sub_zero] at hpiece
  exact hpiece

theorem highlightedText_outside {row : Int} (hrow : ¬ (row ≥ selY1 ∧ row ≤ selY2)) :
    highlightedText selX1 selY1 selX2 selY2 s row = [] := by
  unfold highlightedText selectionBounds
  cases s.toBuffer.row? row with
  | none => rfl
  | some r =>
      rw [Option.map_some, Option.getD_some, if_neg hrow, if_neg (fun h => hrow ⟨h.1, h.2.1⟩)]
      dsimp only
      rw [filter_highlights]
      rfl

/-- What a selected row adds to the text, and what it should add. -/
theorem rowText_selected (hs : Sized s) (hsel : InReadingOrder s selX1 selY1 selX2 selY2)
    {row : Int} (hrow : row ≥ selY1 ∧ row ≤ selY2) :
    ∃ text, rowText selX1 selY1 selX2 selY2 row s = .ok text s ∧
      (row = selY2 ∧ (s.toBuffer.row? row).map (·.wrap) = some true →
        (highlightedText selX1 selY1 selX2 selY2 s row).length = text.length + 1) ∧
      (¬ (row = selY2 ∧ (s.toBuffer.row? row).map (·.wrap) = some true) →
        text = highlightedText selX1 selY1 selX2 selY2 s row) := by
  obtain ⟨hlo, _, hhi⟩ := hsel.rows
  obtain ⟨hx1, hx1'⟩ := hsel.start
  obtain ⟨hx2, hx2'⟩ := hsel.last
  have hfirst : -s.mActiveTranscriptRows ≤ row := by omega
  obtain ⟨r, ⟨hr, hlt⟩, hinternal, hoffset⟩ := hs.locates hfirst (by omega)
  have hread := readRow_eq hs hlt
  have hchars : ((s.rowAt r).cells.map (· &&& 0xff)).length = s.mColumns := by
    have hin : r * s.mColumns + 1 * s.mColumns ≤ s.mData.length := by
      rw [hs.data_length, ← Nat.add_mul]
      exact Nat.mul_le_mul_right _ hlt
    rw [List.length_map]
    exact length_stretch (by omega)
  have hflag : arrayGet (Exn.arrayIndexOutOfBounds .mLineWrap) s.mLineWrap (r : Int) =
      .ok (s.rowAt r).wrap := by
    have hin : r < s.mLineWrap.length := by
      rw [hs.flags_length]
      exact hlt
    rw [arrayGet_of_lt hin, rowAt, List.getElem?_eq_getElem hin]
    rfl
  rw [hr.row?, Option.map_some, Option.some_inj]
  -- `drawText` starts a row at column -1 where the copy starts it at 0
  have hstart : (if row = selY1 then selX1 else -1).toNat =
      (if row = selY1 then selX1 else 0).toNat ∧
      max (if row = selY1 then selX1 else -1) 0 = if row = selY1 then selX1 else 0 := by
    split_ifs <;> omega
  have hspec : highlightedText selX1 selY1 selX2 selY2 s row =
      stretch (copyable (s.rowAt r)) (if row = selY1 then selX1 else 0).toNat
        ((if row = selY2 then selX2 else (s.mColumns : Int)) + 1 -
          if row = selY1 then selX1 else 0).toNat ++ if (s.rowAt r).wrap then [] else [10] := by
    unfold highlightedText selectionBounds
    rw [hr.row?, Option.map_some, Option.getD_some, if_pos hrow]
    dsimp only
    rw [filter_highlights, hstart.1, hstart.2]
    congr 1
    cases (s.rowAt r).wrap with
    | false => rw [if_pos ⟨hrow.1, hrow.2, Bool.false_ne_true⟩, if_neg Bool.false_ne_true]
    | true => rw [if_neg (fun h => h.2.2 rfl), if_pos rfl]
  have hbounds : 0 ≤ (if row = selY1 then selX1 else 0) ∧
      (if row = selY1 then selX1 else 0) ≤ (if row = selY2 then selX2 else (s.mColumns : Int)) ∧
      (if row = selY2 then selX2 else (s.mColumns : Int)) ≤ s.mColumns := by
    have horder := hsel.order
    split_ifs <;> omega
  simp only [rowText, bind, EStateM.bind, hoffset, hread, get_apply, if_pos hrow, checked, pure, EStateM.pure, hinternal, hflag]
  unfold copyable at hspec
  generalize (s.rowAt r).cells.map (· &&& 0xff) = chars at hchars hspec ⊢
  generalize (if row = selY1 then selX1 else 0) = x1 at hbounds hspec ⊢
  generalize hlast : (if row = selY2 then selX2 else (s.mColumns : Int)) = x2 at hbounds hspec ⊢
  obtain ⟨hpos, hle, hin⟩ := hbounds
  cases hwrap : (s.rowAt r).wrap with
  | true =>
      rw [hwrap] at hspec
      simp only [if_true, List.append_nil] at hspec
      rw [if_pos rfl, appended_eq hpos (by omega) (by omega)]
      refine ⟨_, rfl, ?_, ?_⟩
      · rintro ⟨hend, _⟩
        rw [if_pos hend] at hlast
        rw [hspec, length_stretch (by omega), length_stretch (by omega)]
        omega
      · intro hnot
        have hend : ¬ row = selY2 := fun h => hnot ⟨h, rfl⟩
        rw [if_neg hend] at hlast
        -- the highlight reaches one column beyond the row
        rw [hspec, ← List.take_length (l := chars), stretch_take, stretch_take, hchars]
        congr 1
        omega
  | false =>
      rw [hwrap] at hspec
      simp only [Bool.false_eq_true, if_false] at hspec
      have hkept := lastPrintingChar_eq chars
      have hprefix := List.prefix_iff_eq_take.mp (List.rdropWhile_prefix (· = (32 : JChar)) chars)
      have hshort := (List.rdropWhile_prefix (· = (32 : JChar)) chars).length_le
      rw [if_neg Bool.false_ne_true, appended_eq hpos (by omega) (by omega)]
      refine ⟨_, rfl, fun h => absurd h.2 Bool.false_ne_true, fun _ => ?_⟩
      rw [hspec, hprefix, stretch_take]
      congr 2
      omega

theorem rowText_highlighted (hs : Sized s) (hsel : InReadingOrder s selX1 selY1 selX2 selY2)
    {row : Int} (hlo : -(s.mActiveTranscriptRows : Int) ≤ row) (hhi : row < s.mScreenRows) :
    ∃ text, rowText selX1 selY1 selX2 selY2 row s = .ok text s ∧
      (row = selY2 ∧ (s.toBuffer.row? row).map (·.wrap) = some true →
        (highlightedText selX1 selY1 selX2 selY2 s row).length = text.length + 1) ∧
      (¬ (row = selY2 ∧ (s.toBuffer.row? row).map (·.wrap) = some true) →
        text = highlightedText selX1 selY1 selX2 selY2 s row) := by
  by_cases hrow : row ≥ selY1 ∧ row ≤ selY2
  · exact rowText_selected hs hsel hrow
  · obtain ⟨r, ⟨_, hlt⟩, _, hoffset⟩ := hs.locates hlo hhi
    refine ⟨[], ?_, ?_, fun _ => (highlightedText_outside hrow).symm⟩
    · simp only [rowText, bind, EStateM.bind, hoffset, readRow_eq hs hlt, get_apply, if_neg hrow, checked, pure, EStateM.pure]
    · rintro ⟨rfl, _⟩
      exact absurd ⟨hsel.rows.2.1, Int.le_refl _⟩ hrow

/-! ## §4  The two texts -/

/-- The highlighted text of all rows. -/
def allHighlighted (selX1 selY1 selX2 selY2 : Int) (s : TranscriptScreen) : List JChar :=
  ((List.range (s.mActiveTranscriptRows + s.mScreenRows)).map fun (i : Nat) =>
    highlightedText selX1 selY1 selX2 selY2 s ((i : Int) - s.mActiveTranscriptRows)).flatten

/-- **The copied selection** is the highlighted one if and only if the last selected row is not
wrapped. -/
theorem getSelectedText_iff (hs : Sized s) (hsel : InReadingOrder s selX1 selY1 selX2 selY2) :
    ∃ text, getSelectedText selX1 selY1 selX2 selY2 s = .ok text s ∧
      (text = allHighlighted selX1 selY1 selX2 selY2 s ↔
        (s.toBuffer.row? selY2).map (·.wrap) ≠ some true) := by
  obtain ⟨hfirst, hle, hend⟩ := hsel.rows
  have hrows (i : Nat) (hi : i ∈ List.range (s.mActiveTranscriptRows + s.mScreenRows)) := by
    have hlo : -(s.mActiveTranscriptRows : Int) ≤ i - s.mActiveTranscriptRows := by omega
    exact rowText_highlighted hs hsel hlo (by rw [List.mem_range] at hi; omega)
  choose! texts htexts hshort hsame using hrows
  have hcopied : getSelectedText selX1 selY1 selX2 selY2 s = .ok
      ((List.range (s.mActiveTranscriptRows + s.mScreenRows)).map texts).flatten s := by
    have hloop : ((List.range (s.mActiveTranscriptRows + s.mScreenRows)).map
        fun (a : Nat) => (a : Int)).mapM (fun (i : Int) =>
          rowText selX1 selY1 selX2 selY2 (i - s.mActiveTranscriptRows)) s =
        .ok (((List.range (s.mActiveTranscriptRows + s.mScreenRows)).map
          fun (a : Nat) => (a : Int)).map fun (i : Int) => texts i.toNat) s := by
      refine mapM_returns fun i hi => ?_
      obtain ⟨a, ha, rfl⟩ := List.mem_map.mp hi
      exact htexts a ha
    rw [List.map_map] at hloop
    unfold getSelectedText internalGetTranscriptText
    simp only [bind, EStateM.bind, get_apply]
    rw [← range_int] at hloop
    simp only [bind] at hloop
    rw [hloop]
    rfl
  refine ⟨_, hcopied, ?_⟩
  constructor
  · intro heq hwrap
    have hlengths (i : Nat) (hi : i ∈ List.range (s.mActiveTranscriptRows + s.mScreenRows)) :
        (texts i).length ≤ (highlightedText selX1 selY1 selX2 selY2 s
          ((i : Int) - s.mActiveTranscriptRows)).length := by
      by_cases hlast : (i : Int) - s.mActiveTranscriptRows = selY2 ∧
          (s.toBuffer.row? ((i : Int) - s.mActiveTranscriptRows)).map (·.wrap) = some true
      · rw [hshort i hi hlast]
        exact Nat.le_succ _
      · rw [hsame i hi hlast]
    have hall := (length_flatten_le hlengths).2 (congrArg List.length heq)
    have hmem : (selY2 + s.mActiveTranscriptRows).toNat ∈
        List.range (s.mActiveTranscriptRows + s.mScreenRows) := by
      rw [List.mem_range]
      omega
    have hrow : (((selY2 + s.mActiveTranscriptRows).toNat : Nat) : Int) - s.mActiveTranscriptRows =
        selY2 := by
      omega
    have hlost := hshort _ hmem ⟨hrow, by rw [hrow]; exact hwrap⟩
    have heq' := hall _ hmem
    omega
  · intro hwrap
    unfold allHighlighted
    congr 1
    refine List.map_congr_left fun i hi => hsame i hi ?_
    rintro ⟨hrow, hflag⟩
    rw [hrow] at hflag
    exact hwrap hflag

/-- Two rows of two columns, the first one wrapped. -/
def wrappedRow : TranscriptScreen where
  mColumns := 2
  mTotalRows := 3
  mActiveTranscriptRows := 0
  mHead := 0
  mActiveRows := 2
  mScreenRows := 2
  mData := [97, 98, 99, 32, 32, 32]
  mRowBuffer := [0, 0]
  mLineWrap := [true, false, false]

theorem sized_wrappedRow : Sized wrappedRow :=
  ⟨by decide, by decide, by decide, by decide, by decide, by decide, by decide, by decide,
    by decide, by decide, by decide⟩

theorem getSelectedText_iff_two_rows :
    ∃ text, getSelectedText 1 0 1 1 wrappedRow = .ok text wrappedRow ∧
      (text = allHighlighted 1 0 1 1 wrappedRow ↔
        (wrappedRow.toBuffer.row? 1).map (·.wrap) ≠ some true) :=
  getSelectedText_iff sized_wrappedRow
    ⟨by decide, by decide, by decide, by decide⟩

/-- Both characters of the wrapped row are highlighted, and one is copied. -/
theorem selection_loses_character :
    (getSelectedText 0 0 1 0).run' wrappedRow = some [97] ∧
      allHighlighted 0 0 1 0 wrappedRow = [97, 98] := by
  decide +kernel

end TranscriptScreen

end Kbox.Session
