import Kbox.Emulatorview.TranscriptScreen

/-!
# Which rows `drawText` covers

The loop of `drawText` walks over the glyphs of a row, a char or a surrogate
pair each, and flushes a run when the style, the cursor state or a wide
character asks for it.  `Fits` says that the glyphs of the text measure the row
out, with nothing behind the glyph that reaches the last column, and that the
columns of a wide glyph look alike.  That, and a first column that is not taken
for the sentinel the loop starts with, is what the loop needs and all it needs.
-/

namespace Kbox.Emulatorview.TranscriptScreen

open Kbox.Framework

variable [Platform]

/-! ## §1  Glyphs -/

/-- What one pass of the loop takes from the text. -/
inductive IsGlyph : List JChar → Int → Prop
  | single {c : JChar} : isHighSurrogate c = false → IsGlyph [c] (charWidth c.toNat)
  | pair {c d : JChar} : isHighSurrogate c = true →
      IsGlyph [c, d] (charWidth (toCodePoint c d))

/-- The columns `[column, column + width)` have one style and one cursor state. -/
def Uniform (color : StyleRow) (cursor : Int → Bool) (column width : Int) : Prop :=
  ∃ style, color.get column = .ok style ∧
    ∀ y, column ≤ y → y < column + width → color.get y = .ok style ∧ cursor y = cursor column

/-- The text measures out the columns from `column` on. -/
inductive Fits (columns : Int) (color : StyleRow) (cursor : Int → Bool) :
    Int → List JChar → Prop
  | done : Fits columns color cursor columns []
  | glyph {column width : Int} {g text : List JChar} : column < columns → IsGlyph g width →
      Uniform color cursor column width → Fits columns color cursor (column + width) text →
      Fits columns color cursor column (g ++ text)

/-- The runs tile the columns and the text from a place on, each in the style and the
cursor state of its columns. -/
def Tiles (columns length : Int) (color : StyleRow) (cursor : Int → Bool) :
    Int → Int → List TextRun → Prop
  | column, index, [] => column = columns ∧ index = length
  | column, index, r :: runs =>
      r.lineOffset = column ∧ r.index = index ∧ 0 ≤ r.runWidth ∧ 0 ≤ r.count ∧
        (∀ y, column ≤ y → y < column + r.runWidth →
          color.get y = .ok r.textStyle ∧ cursor y = r.cursor) ∧
        Tiles columns length color cursor (column + r.runWidth) (index + r.count) runs

theorem IsGlyph.width_nonneg {g : List JChar} {width : Int} (h : IsGlyph g width) :
    0 ≤ width := by
  cases h with
  | single _ => rcases charWidth_cases _ with h | h | h <;> rw [h] <;> decide
  | pair _ => rcases charWidth_cases _ with h | h | h <;> rw [h] <;> decide

/-- A pass reads a glyph of the text, or throws. -/
theorem glyph_at {text : List JChar} {index width : Int} {c : JChar}
    (hc : arrayGet (Exn.arrayIndexOutOfBounds .mText) text index = .ok c)
    (hw : charWidthAt (.arrayIndexOutOfBounds .mText) text index = .ok width) :
    ∃ g, IsGlyph g width ∧ (g.length : Int) = (if isHighSurrogate c then 2 else 1) ∧
      text.drop index.toNat = g ++ text.drop (index.toNat + g.length) := by
  obtain ⟨hpos, hget⟩ := arrayGet_ok_iff.mp hc
  obtain ⟨hlt, rfl⟩ := List.getElem?_eq_some_iff.mp hget
  unfold charWidthAt at hw
  rw [hc] at hw
  by_cases hhigh : isHighSurrogate text[index.toNat] = true
  · simp only [bind, Except.bind, hhigh, if_true] at hw
    cases hd : arrayGet (Exn.arrayIndexOutOfBounds .mText) text (index + 1) with
    | error e =>
        rw [hd] at hw
        cases hw
    | ok d =>
        rw [hd] at hw
        cases hw
        obtain ⟨_, hgetd⟩ := arrayGet_ok_iff.mp hd
        rw [show (index + 1).toNat = index.toNat + 1 by omega] at hgetd
        obtain ⟨hltd, rfl⟩ := List.getElem?_eq_some_iff.mp hgetd
        refine ⟨_, .pair hhigh, by rw [if_pos hhigh]; rfl, ?_⟩
        rw [List.drop_eq_getElem_cons hlt, List.drop_eq_getElem_cons hltd]
        rfl
  · have hlow : isHighSurrogate text[index.toNat] = false := Bool.eq_false_iff.mpr hhigh
    simp only [bind, Except.bind, hlow] at hw
    cases hw
    refine ⟨_, .single hlow, by rw [if_neg hhigh]; rfl, ?_⟩
    rw [List.drop_eq_getElem_cons hlt]
    rfl

/-- The converse: a glyph at the front of what is left is read by a pass. -/
theorem read_glyph {text rest g : List JChar} {index width : Int} (hg : IsGlyph g width)
    (hindex : 0 ≤ index) (hdrop : text.drop index.toNat = g ++ rest) :
    ∃ c, arrayGet (Exn.arrayIndexOutOfBounds .mText) text index = .ok c ∧
      charWidthAt (.arrayIndexOutOfBounds .mText) text index = .ok width ∧
      (g.length : Int) = (if isHighSurrogate c then 2 else 1) ∧
      text.drop (index.toNat + g.length) = rest := by
  have hread (i : Nat) : text[index.toNat + i]? = (g ++ rest)[i]? := by
    rw [← hdrop, List.getElem?_drop]
  have hrest : text.drop (index.toNat + g.length) = rest := by
    rw [← List.drop_drop, hdrop, List.drop_left]
  cases hg with
  | @single c hlow =>
      have hc : arrayGet (Exn.arrayIndexOutOfBounds .mText) text index = .ok c :=
        arrayGet_ok_iff.mpr ⟨hindex, hread 0⟩
      refine ⟨c, hc, ?_, ?_, hrest⟩
      · unfold charWidthAt
        rw [hc]
        simp only [bind, Except.bind, hlow]
        rfl
      · rw [hlow]
        rfl
  | @pair c d hhigh =>
      have hc : arrayGet (Exn.arrayIndexOutOfBounds .mText) text index = .ok c :=
        arrayGet_ok_iff.mpr ⟨hindex, hread 0⟩
      have hd : arrayGet (Exn.arrayIndexOutOfBounds .mText) text (index + 1) = .ok d := by
        refine arrayGet_ok_iff.mpr ⟨by omega, ?_⟩
        rw [show (index + 1).toNat = index.toNat + 1 by omega]
        exact hread 1
      refine ⟨c, hc, ?_, ?_, hrest⟩
      · unfold charWidthAt
        rw [hc]
        simp only [bind, Except.bind, hhigh, if_true, hd]
        rfl
      · rw [hhigh]
        rfl

/-! ## §2  The loop -/

variable {columns : Int} {text : List JChar} {color : StyleRow} {cursor : Int → Bool}

/-- What a pass that returns has done. -/
theorem drawLoop_succ_ok {fuel : Nat} {r : RunState} {column index : Int}
    {runs : List TextRun}
    (h : drawLoop columns text color cursor (fuel + 1) r column index = .ok runs) :
    (columns ≤ column ∧ runs = r.flush index) ∨
    (column < columns ∧ ∃ style c width incr, color.get column = .ok style ∧
      arrayGet (Exn.arrayIndexOutOfBounds .mText) text index = .ok c ∧
      charWidthAt (.arrayIndexOutOfBounds .mText) text index = .ok width ∧
      incr = (if isHighSurrogate c then 2 else 1) ∧
      ((r.starts style (cursor column) width = true ∧
        ∃ runs', drawLoop columns text color cursor fuel
          (RunState.grow ⟨style, cursor column, 0, column, index, false⟩ width)
          (column + width) (index + incr) = .ok runs' ∧ runs = r.flush index ++ runs') ∨
      (r.starts style (cursor column) width = false ∧
        drawLoop columns text color cursor fuel (r.grow width) (column + width)
          (index + incr) = .ok runs))) := by
  rw [drawLoop] at h
  by_cases hcol : column < columns
  · rw [if_pos hcol] at h
    refine .inr ⟨hcol, ?_⟩
    cases hstyle : color.get column with
    | error e =>
        rw [hstyle] at h
        cases h
    | ok style =>
        cases hc : arrayGet (Exn.arrayIndexOutOfBounds .mText) text index with
        | error e =>
            rw [hstyle, hc] at h
            cases h
        | ok c =>
            cases hw : charWidthAt (Exn.arrayIndexOutOfBounds .mText) text index with
            | error e =>
                rw [hstyle, hc, hw] at h
                cases h
            | ok width =>
                rw [hstyle, hc, hw] at h
                simp only [bind, Except.bind] at h
                refine ⟨style, c, width, _, rfl, rfl, rfl, rfl, ?_⟩
                cases hstarts : r.starts style (cursor column) width with
                | false =>
                    rw [hstarts] at h
                    exact .inr ⟨rfl, h⟩
                | true =>
                    rw [hstarts, if_pos rfl] at h
                    refine .inl ⟨rfl, ?_⟩
                    split at h
                    · cases h
                    · next runs' hrun =>
                        cases h
                        exact ⟨runs', hrun, rfl⟩
  · rw [if_neg hcol] at h
    cases h
    exact .inl ⟨by omega, rfl⟩

theorem drawLoop_pass {fuel : Nat} {r : RunState} {column index width : Int} {style : Style}
    {c : JChar} (hcol : column < columns) (hstyle : color.get column = .ok style)
    (hc : arrayGet (Exn.arrayIndexOutOfBounds .mText) text index = .ok c)
    (hw : charWidthAt (.arrayIndexOutOfBounds .mText) text index = .ok width) {incr : Int}
    (hincr : incr = (if isHighSurrogate c then 2 else 1)) :
    drawLoop columns text color cursor (fuel + 1) r column index =
      if r.starts style (cursor column) width then
        (drawLoop columns text color cursor fuel
          (RunState.grow ⟨style, cursor column, 0, column, index, false⟩ width)
          (column + width) (index + incr)).map (r.flush index ++ ·)
      else drawLoop columns text color cursor fuel (r.grow width) (column + width)
        (index + incr) := by
  subst hincr
  rw [drawLoop, if_pos hcol, hstyle, hc, hw]
  rfl

omit [Platform] in
theorem flush_of_begun {r : RunState} (h : 0 ≤ r.lastRunStart) (index : Int) :
    r.flush index = [⟨r.lastRunStart, r.runWidth, r.lastRunStartIndex,
      index - r.lastRunStartIndex, r.lastCursorStyle, r.lastStyle⟩] := by
  unfold RunState.flush
  rw [if_pos h]

omit [Platform] in
theorem flush_of_not_begun {r : RunState} (h : r.lastRunStart < 0) (index : Int) :
    r.flush index = [] := by
  unfold RunState.flush
  rw [if_neg (by omega)]

/-- A run that was begun comes first, and is not narrower than it is already. -/
theorem first_run {fuel : Nat} {r : RunState} {column index : Int} {runs : List TextRun}
    (h : drawLoop columns text color cursor fuel r column index = .ok runs)
    (hbegun : 0 ≤ r.lastRunStart) :
    ∃ n count rest, 0 ≤ n ∧ runs = ⟨r.lastRunStart, r.runWidth + n, r.lastRunStartIndex, count,
      r.lastCursorStyle, r.lastStyle⟩ :: rest := by
  induction fuel generalizing r column index runs with
  | zero => cases h
  | succ fuel ih =>
      rcases drawLoop_succ_ok h with
        ⟨_, rfl⟩ | ⟨_, style, c, width, incr, _, hc, hw, _, hpass⟩
      · rw [flush_of_begun hbegun]
        exact ⟨0, _, [], Int.le_refl 0, by rw [Int.add_zero]⟩
      · rcases hpass with ⟨_, runs', _, rfl⟩ | ⟨_, hrun⟩
        · rw [flush_of_begun hbegun]
          exact ⟨0, _, runs', Int.le_refl 0, by rw [Int.add_zero]; rfl⟩
        · obtain ⟨g, hg, _⟩ := glyph_at hc hw
          have hwidth := hg.width_nonneg
          obtain ⟨n, count, rest, hn, rfl⟩ := ih hrun hbegun
          refine ⟨width + n, count, rest, by omega, ?_⟩
          simp only [RunState.grow, Int.add_assoc]

/-! ## §3  Tiling -/

/-- The columns of the run begun so far. -/
structure Pending (color : StyleRow) (cursor : Int → Bool) (r : RunState) (column index : Int) :
    Prop where
  start_nonneg : 0 ≤ r.lastRunStart
  width : r.lastRunStart + r.runWidth = column
  width_nonneg : 0 ≤ r.runWidth
  index_le : r.lastRunStartIndex ≤ index
  index_nonneg : 0 ≤ index
  look : ∀ y, r.lastRunStart ≤ y → y < column →
    color.get y = .ok r.lastStyle ∧ cursor y = r.lastCursorStyle

omit [Platform] in
/-- The run begun so far, in front of runs that tile the rest. -/
theorem Pending.tiles_flush {r : RunState} {column index length : Int}
    (h : Pending color cursor r column index) {runs : List TextRun}
    (hruns : Tiles columns length color cursor column index runs) :
    Tiles columns length color cursor r.lastRunStart r.lastRunStartIndex
      (r.flush index ++ runs) := by
  have hwidth := h.width
  have hindex := h.index_le
  rw [flush_of_begun h.start_nonneg]
  refine ⟨rfl, rfl, h.width_nonneg, by show 0 ≤ index - r.lastRunStartIndex; omega, ?_, ?_⟩
  · intro y hlo hhi
    have hy : y < r.lastRunStart + r.runWidth := hhi
    exact h.look y hlo (by omega)
  · show Tiles columns length color cursor (r.lastRunStart + r.runWidth)
      (r.lastRunStartIndex + (index - r.lastRunStartIndex)) runs
    rw [hwidth, show r.lastRunStartIndex + (index - r.lastRunStartIndex) = index by omega]
    exact hruns

omit [Platform] in
theorem Pending.grow {r : RunState} {column index width incr : Int}
    (h : Pending color cursor r column index) (hwidth : 0 ≤ width) (hincr : 0 ≤ incr)
    (hlook : ∀ y, column ≤ y → y < column + width →
      color.get y = .ok r.lastStyle ∧ cursor y = r.lastCursorStyle) :
    Pending color cursor (r.grow width) (column + width) (index + incr) where
  start_nonneg := h.start_nonneg
  width := by
    have := h.width
    show r.lastRunStart + (r.runWidth + width) = column + width
    omega
  width_nonneg := by
    have := h.width_nonneg
    show 0 ≤ r.runWidth + width
    omega
  index_le := by
    have := h.index_le
    show r.lastRunStartIndex ≤ index + incr
    omega
  index_nonneg := by
    have := h.index_nonneg
    omega
  look := by
    intro y hlo hhi
    by_cases hy : y < column
    · exact h.look y hlo hy
    · exact hlook y (by omega) hhi

omit [Platform] in
theorem pending_started {style : Style} {column index : Int} (hcol : 0 ≤ column)
    (hindex : 0 ≤ index) :
    Pending color cursor ⟨style, cursor column, 0, column, index, false⟩ column index where
  start_nonneg := hcol
  width := Int.add_zero _
  width_nonneg := Int.le_refl 0
  index_le := Int.le_refl _
  index_nonneg := hindex
  look := by
    intro y hlo hhi
    have : column ≤ y := hlo
    omega

omit [Platform] in
theorem not_starts_iff {r : RunState} {style : Style} {cursorStyle : Bool} {width : Int}
    (h : r.starts style cursorStyle width = false) :
    r.lastStyle = style ∧ r.lastCursorStyle = cursorStyle := by
  unfold RunState.starts at h
  have hnot := of_decide_eq_false h
  push Not at hnot
  exact ⟨hnot.1.symm, hnot.2.1.symm⟩

/-- Text that fits is tiled. -/
theorem tiles_of_fits {column : Int} {rest : List JChar}
    (hfits : Fits columns color cursor column rest) {fuel : Nat} {r : RunState} {index : Int}
    (hdrop : text.drop index.toNat = rest) (hindex : index ≤ text.length)
    (hcol : 0 ≤ column) (hpend : Pending color cursor r column index)
    (hfuel : rest.length < fuel) :
    ∃ runs, drawLoop columns text color cursor fuel r column index = .ok runs ∧
      Tiles columns text.length color cursor r.lastRunStart r.lastRunStartIndex runs := by
  induction hfits generalizing fuel r index with
  | done =>
      obtain ⟨fuel, rfl⟩ := Nat.exists_eq_succ_of_ne_zero (Nat.ne_of_gt hfuel)
      have hend : text.length ≤ index.toNat := List.drop_eq_nil_iff.mp hdrop
      refine ⟨r.flush index, ?_, ?_⟩
      · rw [drawLoop, if_neg (Int.lt_irrefl _)]
      · have hnonneg := hpend.index_nonneg
        have hnil : Tiles columns text.length color cursor columns index [] := ⟨rfl, by omega⟩
        have htiles := hpend.tiles_flush hnil
        rwa [List.append_nil] at htiles
  | @glyph column width g rest hlt hg hlook _ ih =>
      obtain ⟨c, hc, hw, hlen, hrest⟩ := read_glyph hg hpend.index_nonneg hdrop
      obtain ⟨style, hstyle, hsame⟩ := hlook
      have hwidth := hg.width_nonneg
      have hglyph : g.length ≠ 0 := by
        intro hzero
        rw [hzero] at hlen
        split at hlen <;> cases hlen
      have hnonneg := hpend.index_nonneg
      have hbound : index + g.length ≤ text.length := by
        have := congrArg List.length hdrop
        rw [List.length_drop, List.length_append] at this
        omega
      have hrest' : text.drop (index + g.length).toNat = rest := by
        rw [show (index + (g.length : Int)).toNat = index.toNat + g.length by omega]
        exact hrest
      rw [List.length_append] at hfuel
      obtain ⟨fuel, rfl⟩ := Nat.exists_eq_succ_of_ne_zero (n := fuel) (by omega)
      have hfuel' : rest.length < fuel := by omega
      rw [drawLoop_pass hlt hstyle hc hw hlen]
      cases hstarts : r.starts style (cursor column) width with
      | true =>
          have hstarted : Pending color cursor ⟨style, cursor column, 0, column, index, false⟩
              column index := pending_started hcol hnonneg
          have hgrow := hstarted.grow hwidth (Int.natCast_nonneg g.length) hsame
          obtain ⟨runs, hrun, htiles⟩ := ih hrest' hbound (by omega) hgrow hfuel'
          rw [if_pos rfl, hrun]
          exact ⟨_, rfl, hpend.tiles_flush htiles⟩
      | false =>
          obtain ⟨hlast, hcursor⟩ := not_starts_iff hstarts
          rw [← hlast, ← hcursor] at hsame
          have hgrow := hpend.grow hwidth (Int.natCast_nonneg g.length) hsame
          exact ih hrest' hbound (by omega) hgrow hfuel'

/-- Tiled text fits, whatever lies behind it: the head of the runs shows how the glyph at
the front looks. -/
theorem fits_of_tiles {tail : List JChar} {fuel : Nat} {r : RunState} {column index : Int}
    {runs : List TextRun}
    (h : drawLoop columns (text ++ tail) color cursor fuel r column index = .ok runs)
    (hbegun : 0 ≤ r.lastRunStart) (hwidth : r.lastRunStart + r.runWidth = column)
    (hrun : 0 ≤ r.runWidth) (hindex : 0 ≤ index)
    (htiles : Tiles columns text.length color cursor r.lastRunStart r.lastRunStartIndex runs) :
    index ≤ text.length ∧ Fits columns color cursor column (text.drop index.toNat) := by
  induction fuel generalizing r column index runs with
  | zero => cases h
  | succ fuel ih =>
      rcases drawLoop_succ_ok h with
        ⟨_, rfl⟩ | ⟨hcol, style, c, width, incr, hstyle, hc, hw, hincr, hpass⟩
      · rw [flush_of_begun hbegun] at htiles
        obtain ⟨_, _, _, _, _, hcolumns, hlength⟩ := htiles
        have hlength' : r.lastRunStartIndex + (index - r.lastRunStartIndex) = text.length :=
          hlength
        have hcolumns' : r.lastRunStart + r.runWidth = columns := hcolumns
        have hend : text.drop index.toNat = [] := List.drop_eq_nil_iff.mpr (by omega)
        refine ⟨by omega, ?_⟩
        rw [hend, ← hwidth, hcolumns']
        exact .done
      · obtain ⟨g, hg, hlen, hdrop⟩ := glyph_at hc hw
        have hnonneg := hg.width_nonneg
        rw [← hincr] at hlen
        have hnext : (index + incr).toNat = index.toNat + g.length := by omega
        have hfront (hle : index + incr ≤ text.length) :
            text.drop index.toNat = g ++ text.drop (index + incr).toNat := by
          rw [List.drop_append_of_le_length (by omega),
            List.drop_append_of_le_length (by omega), ← List.append_assoc] at hdrop
          rw [hnext]
          exact List.append_cancel_right hdrop
        rcases hpass with ⟨hstarts, runs', hrun', rfl⟩ | ⟨hstarts, hrun'⟩
        · -- a new run starts at this glyph
          rw [flush_of_begun hbegun] at htiles
          obtain ⟨_, _, _, _, _, htiles'⟩ := htiles
          have hcount : r.lastRunStartIndex + (index - r.lastRunStartIndex) = index := by omega
          rw [hwidth, hcount] at htiles'
          have hcol0 : 0 ≤ column := by omega
          obtain ⟨hle, hrest⟩ := ih hrun' hcol0
            (by show column + (0 + width) = column + width; omega)
            (by show 0 ≤ 0 + width; omega) (by omega) htiles'
          obtain ⟨n, count, rest, hn, rfl⟩ := first_run hrun' hcol0
          obtain ⟨_, _, _, _, hlook, _⟩ := htiles'
          rw [hfront hle]
          refine ⟨by omega, .glyph hcol hg ⟨style, hstyle, fun y hlo hhi => ?_⟩ hrest⟩
          have hy := hlook y hlo (by
            show y < column + (0 + width + n)
            omega)
          exact hy
        · -- the glyph joins the run
          obtain ⟨hlast, hcursor⟩ := not_starts_iff hstarts
          obtain ⟨hle, hrest⟩ := ih hrun' hbegun (by
            show r.lastRunStart + (r.runWidth + width) = column + width
            omega) (by show 0 ≤ r.runWidth + width; omega) (by omega) htiles
          obtain ⟨n, count, rest, hn, rfl⟩ := first_run hrun' hbegun
          obtain ⟨_, _, _, _, hlook, _⟩ := htiles
          rw [hfront hle]
          refine ⟨by omega, .glyph hcol hg ⟨style, hstyle, fun y hlo hhi => ?_⟩ hrest⟩
          have hy := hlook y (by omega) (by
            show y < r.lastRunStart + (r.runWidth + width + n)
            omega)
          rw [← hlast, ← hcursor]
          exact hy

/-! ## §4  The first column -/

/-- While no run was begun, the columns passed over are drawn by none. -/
theorem late_start {fuel : Nat} {r : RunState} {column index : Int} {runs : List TextRun}
    (h : drawLoop columns text color cursor fuel r column index = .ok runs)
    (hnot : r.lastRunStart < 0) (hstyle0 : r.lastStyle = 0) (hcursor0 : r.lastCursorStyle = false)
    (hcol : 0 ≤ column) (hlate : column = 0 →
      color.get 0 = .ok 0 ∧ cursor 0 = false ∧ r.forceFlushRun = false) :
    ∀ run ∈ runs.head?, 0 < run.lineOffset := by
  induction fuel generalizing r column index runs with
  | zero => cases h
  | succ fuel ih =>
      rcases drawLoop_succ_ok h with
        ⟨_, rfl⟩ | ⟨_, style, c, width, incr, hstyle, hc, hw, _, hpass⟩
      · rw [flush_of_not_begun hnot]
        intro run hrun
        cases hrun
      · obtain ⟨g, hg, _⟩ := glyph_at hc hw
        have hnonneg := hg.width_nonneg
        rcases hpass with ⟨hstarts, runs', hrun', rfl⟩ | ⟨_, hrun'⟩
        · rw [flush_of_not_begun hnot]
          obtain ⟨n, count, rest, _, rfl⟩ := first_run hrun' hcol
          intro run hrun
          cases hrun
          show 0 < column
          by_contra hzero
          obtain rfl : column = 0 := by omega
          obtain ⟨hstyle', hcursor', hflush⟩ := hlate rfl
          rw [hstyle'] at hstyle
          cases hstyle
          unfold RunState.starts at hstarts
          rw [hstyle0, hcursor0, hcursor', hflush] at hstarts
          simp at hstarts
        · refine ih hrun' hnot hstyle0 hcursor0 (by omega) ?_
          intro hzero
          obtain rfl : column = 0 := by omega
          obtain ⟨hstyle', hcursor', hflush⟩ := hlate rfl
          refine ⟨hstyle', hcursor', ?_⟩
          show decide (width > 1 ∨ r.forceFlushRun = true) = false
          rw [hflush]
          apply decide_eq_false
          rintro (hwide | hfalse)
          · omega
          · cases hfalse

/-! ## §5  Rows -/

/-- The first column is not taken for the state that the loop starts in. -/
def Begins (color : StyleRow) (cursor : Int → Bool) : Prop :=
  ¬ (color.get 0 = .ok 0 ∧ cursor 0 = false)

/-- The first pass starts a run, as if one had been begun in front of it. -/
theorem drawLine_begins {style : Style} (hcolumns : 0 < columns)
    (hstyle : color.get 0 = .ok style) (hbegins : Begins color cursor) :
    drawLine columns text color cursor = drawLoop columns text color cursor (text.length + 1)
      ⟨style, cursor 0, 0, 0, 0, false⟩ 0 0 := by
  have hstarts (width : Int) :
      RunState.starts ⟨0, false, 0, -1, -1, false⟩ style (cursor 0) width = true := by
    cases htrue : RunState.starts ⟨0, false, 0, -1, -1, false⟩ style (cursor 0) width with
    | true => rfl
    | false =>
        obtain ⟨hlast, hcursor⟩ := not_starts_iff htrue
        exact absurd ⟨hstyle.trans (congrArg Except.ok hlast.symm), hcursor.symm⟩ hbegins
  have hgoes (width : Int) :
      RunState.starts ⟨style, cursor 0, 0, 0, 0, false⟩ style (cursor 0) width = false := by
    simp [RunState.starts]
  unfold drawLine
  rw [drawLoop, drawLoop, if_pos hcolumns, if_pos hcolumns, hstyle]
  cases hc : arrayGet (Exn.arrayIndexOutOfBounds .mText) text 0 with
  | error e => rfl
  | ok c =>
      cases hw : charWidthAt (.arrayIndexOutOfBounds .mText) text 0 with
      | error e => rfl
      | ok width =>
          simp only [bind, Except.bind, hstarts, hgoes, if_true]
          rw [flush_of_not_begun (by decide)]
          split
          · next hrun => exact hrun.symm
          · next hrun => exact hrun.symm

/-- Behind text that the loop does not read past, the array may hold anything. -/
theorem drawLoop_append {fuel fuel' : Nat} {r : RunState} {column index : Int}
    {runs : List TextRun}
    (h : drawLoop columns text color cursor fuel r column index = .ok runs)
    (hfuel : fuel ≤ fuel') (tail : List JChar) :
    drawLoop columns (text ++ tail) color cursor fuel' r column index = .ok runs := by
  induction fuel generalizing fuel' r column index runs with
  | zero => cases h
  | succ fuel ih =>
      obtain ⟨fuel', rfl⟩ := Nat.exists_eq_succ_of_ne_zero (n := fuel') (by omega)
      rcases drawLoop_succ_ok h with
        ⟨hend, rfl⟩ | ⟨hcol, style, c, width, incr, hstyle, hc, hw, hincr, hpass⟩
      · rw [drawLoop, if_neg (by omega)]
      · obtain ⟨g, hg, hlen, hdrop⟩ := glyph_at hc hw
        have hindex := (arrayGet_ok_iff.mp hc).1
        have hlt : index.toNat + g.length ≤ text.length := by
          have := congrArg List.length hdrop
          rw [List.length_append, List.length_drop, List.length_drop] at this
          have hpos : g.length ≠ 0 := by
            intro hzero
            rw [hzero] at hlen
            split at hlen <;> cases hlen
          omega
        have hdrop' : (text ++ tail).drop index.toNat =
            g ++ (text.drop (index.toNat + g.length) ++ tail) := by
          rw [List.drop_append_of_le_length (by omega), hdrop, List.append_assoc]
        obtain ⟨c', hc', hw', hlen', _⟩ := read_glyph hg hindex hdrop'
        have hincr' : incr = (if isHighSurrogate c' then 2 else 1) := by
          rw [← hlen', hlen, hincr]
        rw [drawLoop_pass hcol hstyle hc' hw' hincr']
        rcases hpass with ⟨hstarts, runs', hrun', rfl⟩ | ⟨hstarts, hrun'⟩
        · rw [if_pos hstarts, ih hrun' (by omega)]
          rfl
        · rw [if_neg (by rw [hstarts]; decide), ih hrun' (by omega)]

/-- The runs tile a text with anything behind it if and only if the text measures out the
row, and the first column is not taken for the sentinel. -/
theorem drawLine_tiles_iff (hcolumns : 0 < columns) (tail : List JChar) :
    (∃ runs, drawLine columns (text ++ tail) color cursor = .ok runs ∧
      Tiles columns text.length color cursor 0 0 runs) ↔
    Fits columns color cursor 0 text ∧ Begins color cursor := by
  constructor
  · rintro ⟨runs, hrun, htiles⟩
    have hbegins : Begins color cursor := by
      rintro ⟨hstyle, hcursor⟩
      have hlate := late_start hrun (by decide) rfl rfl (Int.le_refl 0)
        fun _ => ⟨hstyle, hcursor, rfl⟩
      cases runs with
      | nil => exact absurd htiles.1 (Int.ne_of_lt hcolumns)
      | cons run runs =>
          have hfirst : run.lineOffset = 0 := htiles.1
          have := hlate run rfl
          omega
    refine ⟨?_, hbegins⟩
    rcases drawLoop_succ_ok hrun with ⟨hend, _⟩ | ⟨_, style, _, _, _, hstyle, _⟩
    · omega
    · rw [drawLine_begins hcolumns hstyle hbegins] at hrun
      exact (fits_of_tiles hrun (Int.le_refl 0) rfl (Int.le_refl 0) (Int.le_refl 0) htiles).2
  · rintro ⟨hfits, hbegins⟩
    obtain ⟨style, hstyle⟩ : ∃ style, color.get 0 = .ok style := by
      cases hfits with
      | done => exact absurd hcolumns (Int.lt_irrefl _)
      | glyph _ _ hlook _ =>
          obtain ⟨style, hstyle, _⟩ := hlook
          exact ⟨style, hstyle⟩
    have hpend : Pending color cursor ⟨style, cursor 0, 0, 0, 0, false⟩ 0 0 :=
      pending_started (Int.le_refl 0) (Int.le_refl 0)
    rw [drawLine_begins hcolumns hstyle hbegins]
    obtain ⟨runs, hrun, htiles⟩ := tiles_of_fits hfits rfl (Int.natCast_nonneg _)
      (Int.le_refl 0) hpend (Nat.lt_succ_self _)
    have hlonger : text.length + 1 ≤ (text ++ tail).length + 1 := by
      rw [List.length_append]
      omega
    exact ⟨runs, drawLoop_append hrun hlonger tail, htiles⟩

end Kbox.Emulatorview.TranscriptScreen
