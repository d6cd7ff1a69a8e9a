import Kbox.Emulatorview.Strokes

/-!
# Reading a canvas

The colours that come along with extracted text are inks of the canvas: all of them for a text
of whole rows, and the first one for any text.
-/

namespace Kbox.Emulatorview

open Kbox.Framework

/-! ## §1  Style rows -/

namespace StyleRow

variable {a : List Style} {r dst r' dst' : StyleRow}

/-- What is read from a row is in the array that it reads as. -/
theorem Reads.of_get (h : r.Reads a) (hpos : 0 < a.length) {column : Int} {style : Style}
    (hget : r.get column = .ok style) : style ∈ a := by
  cases hdata : r.mData with
  | none =>
      have hfirst := h.get 0 a[0] (List.getElem?_eq_getElem hpos)
      unfold StyleRow.get at hget hfirst
      rw [hdata] at hget hfirst
      cases hget.symm.trans hfirst
      exact List.getElem_mem hpos
  | some data =>
      have hlen := (h.holds.cells data hdata).1
      unfold StyleRow.get at hget
      rw [hdata] at hget
      obtain ⟨hcolumn, _, _, _, hbyte, _⟩ := getStyle_ok_iff.mp hget
      have hlt := (List.getElem?_eq_some_iff.mp hbyte).1
      have hx : column.toNat < a.length := by omega
      have hread := h.get column.toNat a[column.toNat] (List.getElem?_eq_getElem hx)
      unfold StyleRow.get at hread
      rw [hdata, Int.toNat_of_nonneg hcolumn] at hread
      cases hget.symm.trans hread
      exact List.getElem_mem hx

/-- The first style of a copy to the start of a row. -/
theorem Reads.copyTo_head (h : r.Reads a) {start len : Int} (hlen : 0 < len)
    (hcopy : r.copyTo dst start 0 len = .ok (r', dst')) {style : Style}
    (hget : dst'.get 0 = .ok style) : style ∈ a := by
  have hcolumns := h.holds.width
  have hbytes := h.cells.1
  unfold StyleRow.copyTo at hcopy
  split_ifs at hcopy with hlazy
  · cases hcopy
    unfold StyleRow.get at hget
    simp only [hlazy.2.1] at hget
    have hzero : r.get 0 = .ok style := by
      unfold StyleRow.get
      rw [hlazy.1]
      exact hget
    exact h.of_get (by omega) hzero
  · obtain ⟨data, hdata, hcopy⟩ := bind_ok_iff.mp hcopy
    cases hcopy
    unfold arraycopy at hdata
    split_ifs at hdata with hout
    cases hdata
    have hsource (i : Nat) (hi : i < 3) :
        (splice dst.data (3 * (0 : Int)).toNat
          (stretch r.data (3 * start).toNat (3 * len).toNat))[i]? =
            r.data[3 * start.toNat + i]? := by
      rw [getElem?_splice_stretch (by omega) (by omega), if_pos (by omega)]
      congr 1
      omega
    have hread : getStyle r.data start = .ok style := by
      obtain ⟨_, b₀, b₁, b₂, h₀, h₁, h₂, rfl⟩ := getStyle_ok_iff.mp hget
      refine getStyle_ok_iff.mpr ⟨by omega, b₀, b₁, b₂, ?_, ?_, ?_, rfl⟩
      · exact (hsource 0 (by omega)).symm.trans h₀
      · exact (hsource 1 (by omega)).symm.trans h₁
      · exact (hsource 2 (by omega)).symm.trans h₂
    exact h.ensureData.of_get (by omega) hread

end StyleRow

/-! ## §2  Inks of a canvas -/

namespace UnicodeTranscript

variable {P inks : Ink → Prop} {s t : UnicodeTranscript} {g : Canvas}

/-- A style that is the word of an ink in `P`. -/
def Worded (P : Ink → Prop) (style : Style) : Prop := ∃ k, P k ∧ style = k.word

theorem shows_getLineWrap (row : Int) : Keeps (Shows g) (getLineWrap row) :=
  (shows_internalRow row).bind fun _ => keeps_get_bind fun _ => keeps_checked _

open TranscriptScreen (columnStyle)

/-- What `getLineColor` returns has the inks of the canvas: in all columns for a whole row, and in
the first one for any stretch. -/
theorem wp_getLineColor_worded (h : Shows g s) (hwithin : g.Within P) (hpos : 0 < s.mColumns)
    (row x1 x2 : Int) :
    wp (getLineColor row x1 x2)
      (fun color _ => ∀ column style, columnStyle color g.base.word column = .ok style →
        (x1 = 0 ∧ x2 = s.mColumns ∨ column = 0 ∧ 0 < x2 - x1) → Worded P style)
      (fun _ _ => True) s := by
  have hword {slot : Int} {style : Style} (hmem : style ∈ (g.row slot).map Ink.word) :
      Worded P style := by
    obtain ⟨k, hk, rfl⟩ := List.mem_map.mp hmem
    exact ⟨k, hwithin.row hk, rfl⟩
  unfold getLineColor
  rw [wp_bind, wp_get, wp_bind, wp_throwIf]
  refine ⟨fun _ => trivial, fun _ => ?_⟩
  rw [wp_bind]
  refine wp_internalRow ?_ fun _ => trivial
  rw [wp_bind]
  refine wp_colorSlot h _ (fun color _ hrow => ?_) fun _ => trivial
  rcases color with _ | color
  · refine (wp_pure _ _ _ _).mpr fun column style hstyle _ => ?_
    cases hstyle
    exact ⟨g.base, hwithin.base, rfl⟩
  have hreads : color.Reads ((g.row (s.internalRow row)).map Ink.word) := hrow.reads
  have hlen : 0 < ((g.row (s.internalRow row)).map Ink.word).length := by
    rw [List.length_map, hrow.width]
    exact hpos
  rw [wp_ite]
  refine ⟨fun _ => ?_, fun hpart => ?_⟩
  · exact (wp_pure _ _ _ _).mpr fun column style hstyle _ => hword (hreads.of_get hlen hstyle)
  rw [wp_bind, wp_checked]
  refine ⟨fun copied hcopy => ?_, fun _ _ => trivial⟩
  show wp (do
    setColor (s.internalRow row) (some copied.1)
    modify fun s => { s with tmpColor := copied.2 }
    return some copied.2 : TranscriptM (Option StyleRow)) _ _ s
  rw [wp_bind]
  refine wp_mono (wp_true _ _) (fun _ _ _ => ?_) fun _ _ _ => trivial
  rw [wp_bind, wp_modify, wp_pure]
  rintro column style hstyle (hwhole | ⟨rfl, hwidth⟩)
  · exact absurd hwhole hpart
  · exact hword (hreads.copyTo_head hwidth hcopy hstyle)

end UnicodeTranscript

/-! ## §3  Extracted text -/

namespace TranscriptScreen

open UnicodeTranscript (Canvas Shows Worded)

variable [Platform] {P : Ink → Prop} {Q : Style → Prop} {styles : List Style}

/-- All of the styles, or the first one. -/
def listed (whole : Bool) (styles : List Style) : List Style :=
  if whole then styles else styles.take 1

omit [Platform] in
theorem mem_listed_append {whole : Bool} {xs ys : List Style} {style : Style}
    (h : style ∈ listed whole (xs ++ ys)) : style ∈ listed whole xs ∨ style ∈ listed whole ys := by
  cases whole with
  | true => exact List.mem_append.mp h
  | false =>
      cases xs with
      | nil => exact Or.inr h
      | cons first xs => exact Or.inl h

/-- The first style is that of the first column. -/
theorem scanColors_head {color : Option StyleRow} {defaultColor : Style} {line : List JChar}
    {last : Int} {n : Nat} {column : Int}
    (h : scanColors color defaultColor line last n 0 column = .ok styles) {style : Style}
    (hstyle : style ∈ styles.take 1) :
    0 ≤ last ∧ columnStyle color defaultColor column = .ok style := by
  cases n with
  | zero =>
      cases h
      cases hstyle
  | succ n =>
      rw [scanColors] at h
      by_cases hj : 0 ≤ last
      · rw [if_pos hj] at h
        obtain ⟨first, hfirst, h⟩ := bind_ok_iff.mp h
        obtain ⟨column', _, h⟩ := bind_ok_iff.mp h
        obtain ⟨c, _, h⟩ := bind_ok_iff.mp h
        obtain ⟨rest, hrest, h⟩ := bind_ok_iff.mp h
        cases h
        obtain rfl : style = first := List.mem_singleton.mp hstyle
        exact ⟨hj, hfirst⟩
      · rw [if_neg hj] at h
        cases h
        cases hstyle

/-- A stretch without columns has no printing char. -/
theorem scanLine_narrow {width : Int} (hwidth : width ≤ 0) (color : Option StyleRow)
    (defaultColor : Style) (line : List JChar) (n : Nat) :
    scanLine width color defaultColor line n 0 0 (-1) = .ok (0, -1) := by
  cases n with
  | zero => rfl
  | succ n =>
      rw [scanLine, if_neg]
      omega

theorem lineText_listed {width : Int} {color : Option StyleRow} {defaultColor : Style}
    {wrapped whole : Bool} {line : List JChar} {r : RowText}
    (hcolor : ∀ column style, columnStyle color defaultColor column = .ok style →
      (whole = true ∨ column = 0 ∧ 0 < width) → Worded P style)
    (h : lineText width color defaultColor wrapped line = .ok r) :
    ∀ style ∈ listed whole r.colors, Worded P style := by
  unfold lineText at h
  obtain ⟨⟨i, last⟩, hscan, h⟩ := bind_ok_iff.mp h
  obtain ⟨colors, hcolors, h⟩ := bind_ok_iff.mp h
  cases h
  cases whole with
  | true => exact scanColors_of (fun column style hc => hcolor column style hc (Or.inl rfl)) hcolors
  | false =>
      intro style hstyle
      obtain ⟨hlast, hfirst⟩ := scanColors_head hcolors hstyle
      refine hcolor 0 style hfirst (Or.inr ⟨rfl, ?_⟩)
      by_contra hwidth
      rw [scanLine_narrow (by omega)] at hscan
      cases hscan
      rw [if_neg (by omega)] at hlast
      omega

section Extraction

variable {columns totalRows screenRows : Nat} {g : Canvas} {s : TranscriptScreen}

/-- A screen of a known shape whose transcript shows a canvas. -/
structure Reading (Q : Style → Prop) (columns totalRows screenRows : Nat) (g : Canvas)
    (s : TranscriptScreen) : Prop where
  shape : s.Holds Q columns totalRows screenRows
  shows : Shows g s.mData

variable (hQ : ∀ style, Q style → Q (TextStyle.narrow style))

omit [Platform] in
theorem keeps_reading {α : Type} {x : TranscriptM α}
    (hshape : Keeps (UnicodeTranscript.Holds Q columns totalRows screenRows) x)
    (hshows : Keeps (Shows g) x) : Keeps (Reading Q columns totalRows screenRows g) (onData x) := by
  intro s h
  have hboth := wp_and (hshape s.mData h.shape.data) (hshows s.mData h.shows)
  unfold onData
  rw [wp_onField]
  exact wp_mono hboth (fun _ _ ht => ⟨{ h.shape with data := ht.1 }, ht.2⟩)
    fun _ _ ht => ⟨{ h.shape with data := ht.1 }, ht.2⟩

include hQ

/-- The colours of a row: all of them if it is read as a whole, else the first one. -/
theorem wp_rowText_listed (h : Reading Q columns totalRows screenRows g s)
    (hwithin : g.Within P) (hunset : P Ink.unset) (hpos : 0 < columns) {whole : Bool}
    (selX1 selY1 selX2 selY2 row : Int)
    (hwhole : whole = true → selX1 = 0 ∧ (columns : Int) ≤ selX2 + 1) :
    wp (rowText true selX1 selY1 selX2 selY2 row)
      (fun r t => Reading Q columns totalRows screenRows g t ∧
        ∀ style ∈ listed whole r.colors, Worded P style)
      (fun _ _ => True) s := by
  have hwidth := h.shape.width
  have hbase := h.shows.base
  unfold rowText
  rw [wp_bind, wp_get, wp_bind]
  refine wp_mono (keeps_reading (UnicodeTranscript.keeps_getLine _ _ _)
    (UnicodeTranscript.shows_getLine _ _ _) s h) (fun line t ht => ?_) fun _ _ _ => trivial
  rw [wp_bind, if_pos rfl]
  have hcolor := wp_and (wp_and (UnicodeTranscript.wp_getLineColor row
      (if row = selY1 then selX1 else 0)
      (if row = selY2 then min (selX2 + 1) s.mColumns else s.mColumns) hQ ht.shape.data)
    (UnicodeTranscript.shows_getLineColor _ _ _ t.mData ht.shows))
    (UnicodeTranscript.wp_getLineColor_worded ht.shows hwithin
      (show 0 < t.mData.mColumns by rw [ht.shape.data.width]; exact hpos) _ _ _)
  unfold onData
  rw [wp_onField]
  refine wp_mono hcolor (fun color u hu => ?_) fun _ _ _ => trivial
  obtain ⟨⟨⟨hdata, _⟩, hshows⟩, hcolor⟩ := hu
  have hreading : Reading Q columns totalRows screenRows g { t with mData := u } :=
    ⟨{ ht.shape with data := hdata }, hshows⟩
  rw [wp_bind]
  refine wp_mono (keeps_reading (UnicodeTranscript.keeps_getLineWrap row)
    (UnicodeTranscript.shows_getLineWrap row) _ hreading) (fun wrapped v hv => ?_)
    fun _ _ _ => trivial
  have hnewline (c : Prop) [Decidable c] :
      ∀ style ∈ listed whole (if c then (⟨[10], [0]⟩ : RowText) else ⟨[], []⟩).colors,
        Worded P style := by
    intro style hstyle
    split at hstyle
    · refine ⟨Ink.unset, hunset, ?_⟩
      rw [Ink.word_unset]
      cases whole with
      | true => exact List.mem_singleton.mp hstyle
      | false => exact List.mem_singleton.mp hstyle
    · cases whole with
      | true => cases hstyle
      | false => cases hstyle
  rcases line with _ | line
  · exact (wp_pure _ _ _ _).mpr ⟨hv, hnewline _⟩
  simp only [wp_bind, wp_checked, wp_pure]
  refine ⟨fun r hr => ⟨hv, fun style hstyle => ?_⟩, fun _ _ => trivial⟩
  rcases mem_listed_append hstyle with hmem | hmem
  · rw [hbase] at hr
    refine lineText_listed (fun column style hc hlisted => hcolor column style hc ?_) hr style hmem
    refine hlisted.imp (fun hall => ?_) id
    obtain ⟨rfl, hlast⟩ := hwhole hall
    rw [ht.shape.data.width, hwidth]
    refine ⟨by split <;> rfl, ?_⟩
    split
    · omega
    · rfl
  · exact hnewline _ style hmem

theorem wp_rowTexts_listed (h : Reading Q columns totalRows screenRows g s)
    (hwithin : g.Within P) (hunset : P Ink.unset) (hpos : 0 < columns) {whole : Bool}
    (selX1 selY1 selX2 selY2 : Int) (n : Nat) (row : Int)
    (hwhole : whole = true → selX1 = 0 ∧ (columns : Int) ≤ selX2 + 1) :
    wp (rowTexts true selX1 selY1 selX2 selY2 n row)
      (fun r _ => ∀ style ∈ listed whole r.colors, Worded P style) (fun _ _ => True) s := by
  induction n generalizing s row with
  | zero =>
      refine (wp_pure _ _ _ _).mpr fun style hstyle => ?_
      cases whole with
      | true => cases hstyle
      | false => cases hstyle
  | succ n ih =>
      rw [rowTexts, wp_bind]
      refine wp_mono (wp_rowText_listed hQ h hwithin hunset hpos _ _ _ _ _ hwhole)
        (fun r t ht => ?_) fun _ _ _ => trivial
      rw [wp_bind]
      refine wp_mono (ih ht.1 (row + 1)) (fun rest u hu => ?_) fun _ _ _ => trivial
      rw [wp_pure]
      intro style hstyle
      rcases mem_listed_append hstyle with hmem | hmem
      · exact ht.2 style hmem
      · exact hu style hmem

/-- The first colour of a selection is an ink of the canvas. -/
theorem wp_getSelectedText_listed (h : Reading Q columns totalRows screenRows g s)
    (hwithin : g.Within P) (hunset : P Ink.unset) (hpos : 0 < columns)
    (selX1 selY1 selX2 selY2 : Int) :
    wp (getSelectedText true selX1 selY1 selX2 selY2)
      (fun r _ => ∀ style ∈ r.colors.take 1, Worded P style) (fun _ _ => True) s := by
  unfold getSelectedText internalGetTranscriptText
  rw [wp_bind, wp_get]
  exact @wp_rowTexts_listed _ _ _ _ _ _ _ _ hQ h hwithin hunset hpos false _ _ _ _ _ _
    fun h => by cases h

/-- And so are all colours of the transcript. -/
theorem wp_getTranscriptText_listed (h : Reading Q columns totalRows screenRows g s)
    (hwithin : g.Within P) (hunset : P Ink.unset) (hpos : 0 < columns) :
    wp (getTranscriptText true)
      (fun r _ => ∀ style ∈ r.colors, Worded P style) (fun _ _ => True) s := by
  unfold getTranscriptText internalGetTranscriptText
  rw [wp_bind, wp_get, wp_bind, wp_get]
  refine @wp_rowTexts_listed _ _ _ _ _ _ _ _ hQ h hwithin hunset hpos true _ _ _ _ _ _ fun _ => ?_
  rw [h.shape.width]
  exact ⟨rfl, by omega⟩

end Extraction

end TranscriptScreen

end Kbox.Emulatorview
