import Kbox.Emulatorview.Canvas

/-!
# Strokes are edits of the canvas

A transcript that shows a canvas shows the edited canvas behind a stroke, also where rows
scroll into the history and where the screen grows over it.
-/

namespace Kbox.Emulatorview

open Kbox.Framework

namespace UnicodeTranscript

variable [Platform] {g : Canvas} {s t : UnicodeTranscript}

/-! ## §1  Scrolling -/

section Scrolling

omit [Platform]

variable {α : Type} {oob : Exn} {rows : List α}

theorem copyRowsInOrder_ok {n : Nat} (hn : 0 < n) (hrows : rows.length = n) (src dst : Int)
    (order : List Nat) :
    ∃ ys, copyRowsInOrder oob n src dst order rows = .ok ys ∧ ys.length = n := by
  induction order generalizing rows with
  | nil => exact ⟨rows, rfl, hrows⟩
  | cons i order ih =>
      have hpos := Int.emod_nonneg (src + i) (show (n : Int) ≠ 0 by omega)
      have hlt := Int.emod_lt_of_pos (src + i) (show 0 < (n : Int) by omega)
      have hpos' := Int.emod_nonneg (dst + i) (show (n : Int) ≠ 0 by omega)
      have hlt' := Int.emod_lt_of_pos (dst + i) (show 0 < (n : Int) by omega)
      have hin : ((src + i) % n).toNat < rows.length := by omega
      have hget : arrayGet oob rows ((src + i) % n) = .ok rows[((src + i) % n).toNat] :=
        arrayGet_ok_iff.mpr ⟨hpos, List.getElem?_eq_getElem hin⟩
      have hset : arraySet oob rows ((dst + i) % n) rows[((src + i) % n).toNat] =
          .ok (rows.set ((dst + i) % n).toNat rows[((src + i) % n).toNat]) := by
        unfold arraySet
        rw [if_neg (by omega)]
      obtain ⟨ys, hys, hlength⟩ := ih (List.length_set.trans hrows)
      refine ⟨ys, ?_, hlength⟩
      rw [copyRowsInOrder, hget, ok_bind, hset]
      exact hys

theorem copyRows_ok {n : Nat} (hn : 0 < n) (hrows : rows.length = n) {src len : Int}
    (hsrc : 0 ≤ src) (hlen : 0 ≤ len) :
    ∃ ys, copyRows oob n rows src len 1 = .ok ys ∧ ys.length = n := by
  have hpos := Int.emod_nonneg (src + 1) (show (n : Int) ≠ 0 by omega)
  unfold copyRows
  simp only [if_pos (show src + 1 ≥ 0 by omega)]
  split_ifs with hfast
  · have hcopy : ∃ ys, arraycopy oob rows src rows ((src + 1) % n) len = .ok ys := by
      unfold arraycopy
      rw [if_neg (by omega)]
      exact ⟨_, rfl⟩
    obtain ⟨ys, hys⟩ := hcopy
    exact ⟨ys, hys, (arraycopy_spec hys).1.trans hrows⟩
  · exact copyRowsInOrder_ok hn hrows _ _ _
  · exact copyRowsInOrder_ok hn hrows _ _ _

/-- The slot of a row of the screen, and of the one behind it. -/
theorem internalRow_range (htotal : 0 < s.mTotalRows) {row : Int} (hrow : 0 ≤ row) :
    0 ≤ s.internalRow row ∧ s.internalRow row < s.mTotalRows := by
  have hne : (s.mTotalRows : Int) ≠ 0 := by omega
  unfold internalRow
  rw [if_pos hrow]
  exact ⟨Int.emod_nonneg _ hne, Int.emod_lt_of_pos _ (by omega)⟩

theorem arraySet_ok {i : Int} (a : α) (hpos : 0 ≤ i) (hlt : i < rows.length) :
    arraySet oob rows i a = .ok (rows.set i.toNat a) := by
  unfold arraySet
  rw [if_neg (by omega)]

theorem arrayGet_ok {i : Int} (hpos : 0 ≤ i) (hlt : i < rows.length) :
    ∃ a, arrayGet oob rows i = .ok a :=
  ⟨_, arrayGet_ok_iff.mpr ⟨hpos, List.getElem?_eq_getElem (by omega)⟩⟩

/-- The calls of `scroll` on one of the arrays return, if there is a slot at all. -/
theorem scrollRows_steps (oob : Exn) (htotal : 0 < s.mTotalRows)
    (hfirst : s.mScreenFirstRow < s.mTotalRows) (hrows : rows.length = s.mTotalRows)
    {top bottom : Int} (htop : 0 ≤ top) (hmargins : top < bottom)
    (hbottom : bottom ≤ s.mScreenRows) :
    ∃ scrolled ys zs us, arrayGet oob rows (s.internalRow top) = .ok scrolled ∧
      copyRows oob s.mTotalRows rows s.mScreenFirstRow top 1 = .ok ys ∧
      copyRows oob s.mTotalRows ys (s.internalRow bottom) (s.mScreenRows - bottom) 1 = .ok zs ∧
      arraySet oob zs s.mScreenFirstRow scrolled = .ok us ∧ us.length = s.mTotalRows := by
  have hslot := @internalRow_range s htotal top htop
  have hslot' := @internalRow_range s htotal bottom (by omega)
  obtain ⟨scrolled, hget⟩ := @arrayGet_ok _ oob rows _ hslot.1 (by omega)
  obtain ⟨ys, hys, hlength⟩ := @copyRows_ok _ oob _ _ htotal hrows s.mScreenFirstRow _
    (Int.natCast_nonneg _) htop
  obtain ⟨zs, hzs, hlength'⟩ := @copyRows_ok _ oob _ _ htotal hlength _
    (s.mScreenRows - bottom) hslot'.1 (by omega)
  have hset := @arraySet_ok _ oob zs s.mScreenFirstRow scrolled (Int.natCast_nonneg _) (by omega)
  exact ⟨scrolled, ys, zs, _, hget, hys, hzs, hset,
    (length_of_arraySet hset).trans hlength'⟩

/-- `advanceScreen` blanks the last row of the region. -/
theorem advanceScreen_slots (htotal : 0 < s.mTotalRows) (hlines : s.mLines.length = s.mTotalRows)
    (hcolors : s.mColor.length = s.mTotalRows) (hflags : s.mLineWrap.length = s.mTotalRows)
    {bottom : Int} (hpos : 0 < bottom) (hbottom : bottom ≤ s.mScreenRows) (style : Style) :
    returns (advanceScreen bottom style) (fun _ t => ∃ lines colors flags first active,
      t = { s with
        mLines := lines, mColor := colors, mLineWrap := flags
        mScreenFirstRow := first, mActiveTranscriptRows := active } ∧
      lines.length = s.mTotalRows ∧ colors.length = s.mTotalRows ∧ flags.length = s.mTotalRows ∧
      first < s.mTotalRows ∧
      arraySet (Exn.arrayIndexOutOfBounds .mColor) s.mColor
        ((s.mScreenFirstRow + bottom) % s.mTotalRows) (some (StyleRow.create style s.mColumns)) =
          .ok colors) s := by
  let slot : Int := (s.mScreenFirstRow + bottom) % s.mTotalRows
  have hslot : 0 ≤ slot ∧ slot < s.mTotalRows :=
    ⟨Int.emod_nonneg _ (by omega), Int.emod_lt_of_pos _ (by omega)⟩
  have hline := @arraySet_ok _ (.arrayIndexOutOfBounds .mLines) s.mLines slot none hslot.1
    (by omega)
  have hcolor := @arraySet_ok _ (.arrayIndexOutOfBounds .mColor) s.mColor slot
    (some (StyleRow.create style s.mColumns)) hslot.1 (by omega)
  have hflag := @arraySet_ok _ (.arrayIndexOutOfBounds .mLineWrap) s.mLineWrap slot false hslot.1
    (by omega)
  unfold advanceScreen returns
  rw [wp_bind, wp_modify, wp_bind]
  have hrow (u : UnicodeTranscript) (hfirst : u.mScreenFirstRow =
      (s.mScreenFirstRow + 1) % s.mTotalRows) (htotal' : u.mTotalRows = s.mTotalRows)
      (hscreen : u.mScreenRows = s.mScreenRows) :
      externalToInternalRow (bottom - 1) u = .ok slot u := by
    rw [externalToInternalRow_eq, if_neg (by omega)]
    unfold internalRow
    rw [if_pos (by omega), hfirst, htotal']
    push_cast
    rw [Int.emod_add_emod, show (s.mScreenFirstRow : Int) + 1 + (bottom - 1) =
      s.mScreenFirstRow + bottom by omega]
  refine (wp_of_ok (hrow _ ?_ ?_ ?_)).mpr ?_
  · rfl
  · rfl
  · rfl
  simp only [setLine, setColor, storeLineWrap, wp_bind, wp_get, hline, hcolor, hflag,
    wp_checked_ok, wp_set]
  exact ⟨_, _, _, _, _, rfl, List.length_set.trans hlines, List.length_set.trans hcolors,
    List.length_set.trans hflags, Nat.mod_lt _ htotal, hcolor⟩

/-- Without slots nothing can be written. -/
theorem scroll_empty (h : Shows g s) (htotal : s.mTotalRows = 0) (top bottom : Int)
    (style : Style) : wp (scroll top bottom style) (fun _ _ => False) (fun _ => Shows g) s := by
  have hlines : s.mLines = [] := List.eq_nil_of_length_eq_zero (h.lines.trans htotal)
  have hset (i : Int) (line : Option Line) :
      arraySet (Exn.arrayIndexOutOfBounds .mLines) ([] : List (Option Line)) i line =
        .error (.arrayIndexOutOfBounds .mLines) := by
    unfold arraySet
    rw [if_pos (by rw [List.length_nil]; omega)]
  have hget (i : Int) : arrayGet (Exn.arrayIndexOutOfBounds .mLines) ([] : List (Option Line)) i =
      .error (.arrayIndexOutOfBounds .mLines) := by
    unfold arrayGet
    split_ifs <;> rfl
  unfold scroll
  simp only [wp_bind, wp_get, wp_throwIf]
  refine ⟨fun _ => h, fun _ => ⟨fun _ => h, fun _ => ⟨fun _ => h, fun _ => ?_⟩⟩⟩
  rw [wp_ite]
  refine ⟨fun _ => ?_, fun _ => ?_⟩
  · unfold advanceScreen
    rw [wp_bind, wp_modify, wp_bind]
    have hnew {first active : Nat} :
        Shows g { s with mScreenFirstRow := first, mActiveTranscriptRows := active } :=
      { h with first := fun hpos => absurd hpos (by show ¬ 0 < s.mTotalRows; omega) }
    refine wp_internalRow ?_ fun _ => hnew
    unfold setLine
    simp only [wp_bind, wp_get, hlines, hset, wp_checked_error]
    rw [← hlines]
    exact hnew
  · rw [wp_bind]
    refine wp_internalRow ?_ fun _ => h
    rw [wp_bind]
    refine wp_internalRow ?_ fun _ => h
    unfold lineAt
    simp only [wp_bind, wp_get, hlines, hget, wp_checked_error]
    exact h

theorem scroll_slots (h : Shows g s) (htotal : 0 < s.mTotalRows) (top bottom : Int)
    (style : Style) :
    wp (scroll top bottom style) (fun _ t => ∃ lines colors flags first active,
      t = { s with
        mLines := lines, mColor := colors, mLineWrap := flags
        mScreenFirstRow := first, mActiveTranscriptRows := active } ∧
      lines.length = s.mTotalRows ∧ colors.length = s.mTotalRows ∧ flags.length = s.mTotalRows ∧
      first < s.mTotalRows ∧
      s.scrollRows top bottom (some (StyleRow.create style s.mColumns)) s.mColor = .ok colors)
      (fun _ t => t = s) s := by
  have hfirst := h.first htotal
  unfold scroll
  rw [wp_bind, wp_get, wp_bind, wp_throwIf]
  refine ⟨fun _ => rfl, fun hmargins => ?_⟩
  rw [wp_bind, wp_throwIf]
  refine ⟨fun _ => rfl, fun htop => ?_⟩
  rw [wp_bind, wp_throwIf]
  refine ⟨fun _ => rfl, fun hbottom => ?_⟩
  rw [wp_ite]
  refine ⟨fun hwhole => ?_, fun hpart => ?_⟩
  · refine wp_of_returns (advanceScreen_slots htotal h.lines h.colors h.flags
      (show 0 < bottom by omega) (by omega) style) ?_
    rintro _ t ⟨lines, colors, flags, first, active, rfl, hlines, hlength, hflags, hnew, hset⟩
    refine ⟨_, _, _, _, _, rfl, hlines, hlength, hflags, hnew, ?_⟩
    unfold scrollRows
    rw [if_pos hwhole]
    exact hset
  · obtain ⟨line, lines₁, lines₂, lines₃, hline, hlines₁, hlines₂, hlines₃, hlength⟩ :=
      scrollRows_steps (.arrayIndexOutOfBounds .mLines) htotal hfirst h.lines (by omega)
        (show top < bottom by omega) (by omega)
    obtain ⟨color, colors₁, colors₂, colors₃, hcolor, hcolors₁, hcolors₂, hcolors₃, hlength'⟩ :=
      scrollRows_steps (.arrayIndexOutOfBounds .mColor) htotal hfirst h.colors (by omega)
        (show top < bottom by omega) (by omega)
    obtain ⟨flag, flags₁, flags₂, flags₃, hflag, hflags₁, hflags₂, hflags₃, hlength''⟩ :=
      scrollRows_steps (.arrayIndexOutOfBounds .mLineWrap) htotal hfirst h.flags (by omega)
        (show top < bottom by omega) (by omega)
    have hinternal {row : Int} (hlo : 0 ≤ row) (hhi : row ≤ s.mScreenRows) :
        externalToInternalRow row s = .ok (s.internalRow row) s := by
      rw [externalToInternalRow_eq, if_neg (by omega)]
    rw [wp_bind, wp_of_ok (hinternal (by omega) (by omega)), wp_bind,
      wp_of_ok (hinternal (by omega) (by omega))]
    simp only [lineAt, colorAt, lineWrapAt, blockCopyLines, setLine, setColor, storeLineWrap,
      wp_bind, wp_get, wp_set, wp_checked_ok, hline, hcolor, hflag, hlines₁, hcolors₁,
      hflags₁, hlines₂, hcolors₂, hflags₂, hlines₃, hcolors₃, hflags₃]
    have hadvance := @advanceScreen_slots
      { s with mLines := lines₃, mColor := colors₃, mLineWrap := flags₃ } htotal hlength hlength'
      hlength'' _ (show 0 < bottom by omega) (by show bottom ≤ s.mScreenRows; omega) style
    refine wp_of_returns hadvance ?_
    rintro _ t ⟨lines, colors, flags, first, active, rfl, hlines, hsize, hflags, hnew, hset⟩
    refine ⟨_, _, _, _, _, rfl, hlines, hsize, hflags, hnew, ?_⟩
    unfold scrollRows
    rw [if_neg hpart, hcolor, ok_bind, hcolors₁, ok_bind, hcolors₂, ok_bind, hcolors₃]
    exact hset

theorem forall₂_scrollRows {β : Type} {R : α → β → Prop} {xs xs' : List α} {ys : List β}
    (h : List.Forall₂ R xs ys) {top bottom : Int} {x : α} {y : β} (hxy : R x y)
    (hx : s.scrollRows top bottom x xs = .ok xs') :
    ∃ ys', s.scrollRows top bottom y ys = .ok ys' ∧ List.Forall₂ R xs' ys' := by
  unfold scrollRows at hx ⊢
  simp only [] at hx ⊢
  split_ifs at hx ⊢
  · exact forall₂_arraySet h hxy hx
  · obtain ⟨a, hget, hx⟩ := bind_ok_iff.mp hx
    obtain ⟨xs₁, hx₁, hx⟩ := bind_ok_iff.mp hx
    obtain ⟨xs₂, hx₂, hx⟩ := bind_ok_iff.mp hx
    obtain ⟨xs₃, hx₃, hx⟩ := bind_ok_iff.mp hx
    obtain ⟨b, hget', hab⟩ := forall₂_arrayGet h hget
    obtain ⟨ys₁, hy₁, h₁⟩ := forall₂_copyRows h hx₁
    obtain ⟨ys₂, hy₂, h₂⟩ := forall₂_copyRows h₁ hx₂
    obtain ⟨ys₃, hy₃, h₃⟩ := forall₂_arraySet h₂ hab hx₃
    obtain ⟨ys', hy, h'⟩ := forall₂_arraySet h₃ hxy hx
    refine ⟨ys', ?_, h'⟩
    rw [hget', ok_bind, hy₁, ok_bind, hy₂, ok_bind, hy₃]
    exact hy

theorem scroll_shows (h : Shows g s) (top bottom : Int) (k : Ink) :
    wp (scroll top bottom k.word)
      (fun _ => Shows ((Stroke.scroll top bottom k).edit s g)) (fun _ => Shows g) s := by
  by_cases htotal : 0 < s.mTotalRows
  · refine wp_mono (scroll_slots h htotal top bottom k.word) ?_ fun _ t ht => ht ▸ h
    rintro _ t ⟨lines, colors, flags, first, active, rfl, hlines, hlength, hflags, hnew, hcolors⟩
    obtain ⟨rows, hrows, hrel⟩ := forall₂_scrollRows h.rows (reads_fresh k s.mColumns) hcolors
    refine ⟨hlines, hlength, hflags, fun _ => hnew, h.base, ?_⟩
    show List.Forall₂ _ _ ((s.scrollRows top bottom (List.replicate s.mColumns k)
      g.rows).toOption.getD g.rows)
    rw [hrows]
    exact hrel
  · exact wp_mono (scroll_empty h (by omega) top bottom k.word) (fun _ _ hf => hf.elim)
      fun _ _ ht => ht

end Scrolling

/-! ## §2  Resizing in place -/

section Resizing

omit [Platform]

/-- A slot behind the screen is dropped. -/
theorem clearSlot_shows (h : Shows g s) (index : Nat) (hindex : index < s.mTotalRows) :
    returns (do
      setLine index none
      setColor index none
      storeLineWrap index false) (fun _ t => (∃ lines colors flags,
        t = { s with mLines := lines, mColor := colors, mLineWrap := flags }) ∧
      Shows { g with rows := g.rows.set index (List.replicate s.mColumns Ink.unset) } t) s := by
  have hlines := h.lines
  have hcolors := h.colors
  have hflags := h.flags
  have hline := @arraySet_of_lt _ _ (Exn.arrayIndexOutOfBounds .mLines) s.mLines index none
    (by omega)
  have hcolor := @arraySet_of_lt _ _ (Exn.arrayIndexOutOfBounds .mColor) s.mColor index none
    (by omega)
  have hflag := @arraySet_of_lt _ _ (Exn.arrayIndexOutOfBounds .mLineWrap) s.mLineWrap index false
    (by omega)
  unfold returns
  simp only [setLine, setColor, storeLineWrap, wp_bind, wp_get, hline, hcolor, hflag,
    wp_checked_ok, wp_set]
  exact ⟨⟨_, _, _, rfl⟩, List.length_set.trans hlines, List.length_set.trans hcolors,
    List.length_set.trans hflags, h.first, h.base, forall₂_set h.rows (reads_unset s.mColumns)⟩

theorem clearSlots_shows (h : Shows g s) (htotal : 0 < s.mTotalRows) (n : Int) :
    returns (clearSlots n) (fun _ t => (∃ lines colors flags,
        t = { s with mLines := lines, mColor := colors, mLineWrap := flags }) ∧
      Shows { g with rows := s.clearedRows n.toNat g.rows } t) s := by
  unfold clearSlots returns
  rw [wp_bind, wp_get]
  refine returns_repeatFor (fun i t => (∃ lines colors flags,
      t = { s with mLines := lines, mColor := colors, mLineWrap := flags }) ∧
    Shows { g with rows := s.clearedRows i g.rows } t) ⟨⟨_, _, _, rfl⟩, h⟩ fun i t _ ht => ?_
  obtain ⟨⟨_, _, _, rfl⟩, ht⟩ := ht
  have hclear := clearSlot_shows ht ((s.mScreenFirstRow + s.mScreenRows + i) % s.mTotalRows)
    (Nat.mod_lt _ htotal)
  push_cast at hclear
  refine wp_of_returns hclear ?_
  rintro _ u ⟨⟨_, _, _, rfl⟩, hu⟩
  refine ⟨⟨_, _, _, rfl⟩, ?_⟩
  unfold clearedRows at hu ⊢
  rw [List.range_succ, List.foldl_append]
  exact hu

theorem hideBlankRows_same (n : Nat) (i shift : Int) :
    Keeps (fun t => t = s) (hideBlankRows n i shift) := by
  induction n generalizing i shift with
  | zero => exact keeps_pure _
  | succ n ih =>
      refine Keeps.bind ?_ fun r => Keeps.bind (keeps_get_bind fun _ => keeps_checked _) ?_
      · exact keeps_get_bind fun _ => keeps_throwIf.then (keeps_ite (fun _ => keeps_pure _)
          fun _ => keeps_ite (fun _ => keeps_pure _) fun _ => keeps_pure _)
      · exact fun line => keeps_ite (fun _ => keeps_ite (fun _ => keeps_pure _) fun _ => ih _ _)
          fun _ => keeps_pure _

/-- The top of the screen moves inside of the arrays. -/
theorem Shows.moveTop (h : Shows g s) (shift : Int) (active screen : Nat) :
    Shows g { s with
      mScreenFirstRow :=
        if shift > 0 ∨ (shift < 0 ∧ s.mScreenFirstRow ≥ -shift) then
          ((s.mScreenFirstRow + shift) % s.mTotalRows).toNat
        else if shift < 0 then (s.mTotalRows + s.mScreenFirstRow + shift).toNat
        else s.mScreenFirstRow
      mActiveTranscriptRows := active
      mScreenRows := screen } := by
  refine { h with first := fun hpos => ?_ }
  have hpos' : 0 < s.mTotalRows := hpos
  have hfirst := h.first hpos'
  have hlt := Int.emod_lt_of_pos (s.mScreenFirstRow + shift)
    (show 0 < (s.mTotalRows : Int) by omega)
  show (if shift > 0 ∨ (shift < 0 ∧ s.mScreenFirstRow ≥ -shift) then
    ((s.mScreenFirstRow + shift) % s.mTotalRows).toNat
    else if shift < 0 then (s.mTotalRows + s.mScreenFirstRow + shift).toNat
    else s.mScreenFirstRow) < s.mTotalRows
  split_ifs <;> omega

theorem resize_shows (h : Shows g s) (columns rows cursorRow : Int) :
    wp (resize columns rows cursorRow)
      (fun _ => Shows ((Stroke.resize columns rows cursorRow).edit s g)) (fun _ => Shows g) s := by
  have hedit : (Stroke.resize columns rows cursorRow).edit s g =
      if columns = s.mColumns ∧ rows ≤ s.mTotalRows ∧
        0 < rows - s.mScreenRows - s.mActiveTranscriptRows then
          Canvas.mk g.base (s.clearedRows
            (s.mActiveTranscriptRows + (rows - s.mScreenRows)).toNat g.rows)
      else g := rfl
  unfold resize
  rw [wp_bind, wp_get, wp_ite]
  refine ⟨fun hout => ?_, fun hin => ?_⟩
  · have hsame : (Stroke.resize columns rows cursorRow).edit s g = g := by
      rw [hedit, if_neg (by omega)]
    rw [hsame]
    exact (wp_pure _ _ _ _).mpr h
  -- the top moves last
  have hdone (g' : Canvas) (shift : Int) (t : UnicodeTranscript) (ht : Shows g' t) :
      wp (do
        modify fun s => { s with
          mScreenFirstRow :=
            if shift > 0 ∨ (shift < 0 ∧ s.mScreenFirstRow ≥ -shift) then
              ((s.mScreenFirstRow + shift) % s.mTotalRows).toNat
            else if shift < 0 then (s.mTotalRows + s.mScreenFirstRow + shift).toNat
            else s.mScreenFirstRow
          mActiveTranscriptRows := (s.mActiveTranscriptRows + shift).toNat
          mScreenRows := rows.toNat }
        return (true, cursorRow - shift) : TranscriptM (Bool × Int))
        (fun _ => Shows g') (fun _ => Shows g) t := by
    rw [wp_bind, wp_modify, wp_pure]
    exact ht.moveTop _ _ _
  unfold resizeShift
  rw [wp_bind, wp_bind, wp_get]
  by_cases hbeyond : (s.mScreenRows : Int) - rows < -s.mActiveTranscriptRows
  · have hcleared : (Stroke.resize columns rows cursorRow).edit s g = Canvas.mk g.base
        (s.clearedRows (s.mActiveTranscriptRows + (rows - s.mScreenRows)).toNat g.rows) := by
      rw [hedit, if_pos (by omega)]
    rw [hcleared, if_pos hbeyond, wp_bind]
    refine wp_of_returns (clearSlots_shows h (by omega) _) ?_
    rintro _ t ⟨_, ht⟩
    rw [wp_pure]
    rw [show (s.mActiveTranscriptRows : Int) - (s.mScreenRows - rows) =
      s.mActiveTranscriptRows + (rows - s.mScreenRows) by omega] at ht
    exact hdone _ _ _ ht
  · have hsame : (Stroke.resize columns rows cursorRow).edit s g = g := by
      rw [hedit, if_neg (by omega)]
    rw [hsame, if_neg hbeyond, wp_ite]
    refine ⟨fun _ => ?_, fun _ => (wp_pure _ _ _ _).mpr (hdone _ _ _ h)⟩
    refine wp_mono (hideBlankRows_same _ _ _ s rfl) ?_ ?_
    · rintro shift _ rfl
      exact hdone _ _ _ h
    · rintro _ _ rfl
      exact h

end Resizing

/-! ## §3  Strokes on a canvas -/

omit [Platform] in
theorem shows_create (columns totalRows screenRows : Nat) (k : Ink) :
    Shows ⟨k, List.replicate totalRows (List.replicate columns Ink.unset)⟩
      (create columns totalRows screenRows k.word) where
  lines := List.length_replicate
  colors := List.length_replicate
  flags := List.length_replicate
  first hpos := hpos
  base := rfl
  rows := by
    show List.Forall₂ _ (List.replicate totalRows none) _
    induction totalRows with
    | zero => exact .nil
    | succ n ih => exact .cons (reads_unset columns) ih

/-- **A stroke is an edit of the canvas.** -/
theorem Shows.paint (h : Shows g s) {inks : Ink → Prop} {stroke : Stroke}
    (htakes : stroke.Takes inks s) : Shows (stroke.paint s g) (after stroke.run s) := by
  have hrun : wp stroke.run (fun _ => Shows (stroke.edit s g)) (fun _ => Shows g) s := by
    have hread {α : Type} {x : TranscriptM α} (hx : Keeps (Shows g) x) :
        wp (do let _ ← x) (fun _ => Shows g) (fun _ => Shows g) s := by
      rw [wp_bind]
      exact wp_mono (hx s h) (fun _ _ ht => (wp_pure _ _ _ _).mpr ht) fun _ _ ht => ht
    cases stroke with
    | set column row codePoint ink => exact setCharStyle_shows h column row codePoint ink
    | clear column row =>
        show wp (get >>= fun s => setCharStyle column row 32 s.mDefaultStyle) _ _ s
        rw [wp_bind, wp_get, h.base]
        exact setCharStyle_shows h column row 32 g.base
    | copyRow sx sy w dx dy y => exact copyRow_shows h sx sy w dx dy y htakes
    | scroll top bottom ink => exact scroll_shows h top bottom ink
    | setLineWrap row => exact shows_setLineWrap row s h
    | getLine row x1 x2 => exact hread (shows_getLine row x1 x2)
    | getLineColor row x1 x2 => exact hread (shows_getLineColor row x1 x2)
    | resize columns rows cursorRow =>
        show wp (do let _ ← UnicodeTranscript.resize columns rows cursorRow) _ _ s
        rw [wp_bind]
        exact wp_mono (resize_shows h columns rows cursorRow)
          (fun _ _ ht => (wp_pure _ _ _ _).mpr ht) fun _ _ ht => ht
    | create columns totalRows screenRows ink =>
        exact (wp_set _ _ _ _).mpr (shows_create columns totalRows screenRows ink)
  unfold Stroke.paint Framework.after
  cases hcase : stroke.run s with
  | ok a t => exact (wp_of_ok hcase).mp hrun
  | error e t => exact (wp_of_error hcase).mp hrun

end UnicodeTranscript

end Kbox.Emulatorview
