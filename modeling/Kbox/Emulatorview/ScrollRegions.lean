import Kbox.Emulatorview.ProcessBytes
import Kbox.Emulatorview.RowFrames
import Kbox.Emulatorview.SamplePlatform
import Kbox.Framework.ScrollRegion

/-!
# The scroll region

What LF, IND, NEL, RI and a character that wraps do to the rows on either side
of the margins.
-/

namespace Kbox.Emulatorview

open Kbox.Framework

namespace UnicodeTranscript

variable {J : UnicodeTranscript → Prop} {Q : Nat → Prop} {d : UnicodeTranscript}

/-! ## §1  Calls that write to one row -/

/-- What is drawn in a row keeps `J`. -/
structure RowFree [Platform] (J : UnicodeTranscript → Prop) (row : Int) : Prop where
  setLineWrap : Keeps J (setLineWrap row)
  set : ∀ x codePoint style, Keeps J (setCharStyle x row codePoint style)
  copy : ∀ sx w dx, Keeps J (blockCopy sx row w 1 dx row)

variable [Platform]

theorem rowFree_fixes (hd : Ring d) {row : Int} (hlt : row < d.mScreenRows)
    (hQ : d.Avoids Q row) : RowFree (Fixes Q d) row where
  setLineWrap := fixes_setLineWrap hd hlt hQ
  set _ _ _ := fixes_setCharStyle hd _ _ _ hQ
  copy sx w dx := by
    have hsame (row' : Int) (hlo : row ≤ row') (hhi : row' < row + 1) : d.Avoids Q row' := by
      obtain rfl : row' = row := by omega
      exact hQ
    exact fixes_blockCopy hd sx w dx (by omega) (by omega) hsame hsame

omit [Platform] in
/-- What leaves the rows of `Q` as they are leaves them where they are. -/
theorem keeps_stays {α : Type} {x : TranscriptM α}
    (h : ∀ t, Stays Q d t → Keeps (Fixes Q t) x) : Keeps (Stays Q d) x := by
  intro t ht
  have hx := h t ht t (Fixes.refl t)
  exact wp_mono hx (fun _ u hu => ht.trans (hu.stays ht.ring)) fun _ u hu =>
    ht.trans (hu.stays ht.ring)

omit [Platform] in
theorem Stays.avoids {t : UnicodeTranscript} (h : Stays Q d t) {row : Int} (hQ : d.Avoids Q row) :
    t.Avoids Q row := by
  unfold Avoids
  rw [h.totalRows]
  exact hQ

theorem rowFree_stays {row : Int} (hlt : row < d.mScreenRows) (hQ : d.Avoids Q row) :
    RowFree (Stays Q d) row := by
  have hfree (t : UnicodeTranscript) (ht : Stays Q d t) : RowFree (Fixes Q t) row :=
    rowFree_fixes ht.ring (by rw [ht.screenRows]; exact hlt) (ht.avoids hQ)
  refine ⟨keeps_stays fun t ht => (hfree t ht).setLineWrap, fun _ _ _ => ?_, fun _ _ _ => ?_⟩
  · exact keeps_stays fun t ht => (hfree t ht).set _ _ _
  · exact keeps_stays fun t ht => (hfree t ht).copy _ _ _

omit [Platform] in
theorem stays_scroll (hroom : d.mScreenRows < d.mTotalRows) {top bottom : Nat}
    (hmargins : top < bottom) (hbottom : bottom ≤ d.mScreenRows) (style : Style)
    (hQ : ∀ y : Nat, Q y → y < top ∨ bottom ≤ y) :
    Keeps (Stays Q d) (scroll top bottom style) := by
  intro t ht
  have hroom' : t.mScreenRows < t.mTotalRows := by
    rw [ht.screenRows, ht.totalRows]
    exact hroom
  refine wp_of_returns (scroll_returns ht.ring hroom' hmargins (by rw [ht.screenRows]; exact hbottom)
    style) fun _ u hu => ht.trans (hu.stays hroom' hQ)

end UnicodeTranscript

namespace TerminalEmulator

open UnicodeTranscript (StoredRow Ring Fixes Stays RowFree)

/-! ## §2  The region -/

/-- The emulator, as far as a scroll region is concerned. -/
def regionView (s : TerminalEmulator) : RegionView StoredRow where
  rows := (List.range s.mScreen.mData.mScreenRows).map s.mScreen.mData.screenRow
  history := (List.range s.mScreen.mData.mActiveTranscriptRows).map fun i =>
    s.mScreen.mData.slot (s.mScreen.mData.slotOfRow i)
  top := s.mTopMargin
  bottom := s.mBottomMargin
  cursor := s.mCursorRow
  scrolls := s.mScrollCounter

/-- The cursor is on the screen, and there is a region. -/
structure Placed (s : TerminalEmulator) : Prop where
  ring : Ring s.mScreen.mData
  room : s.mScreen.mData.mScreenRows < s.mScreen.mData.mTotalRows
  rows : (s.mScreen.mData.mScreenRows : Int) = s.mRows
  row : 0 ≤ s.mCursorRow ∧ s.mCursorRow < s.mRows
  margins : 0 ≤ s.mTopMargin ∧ s.mTopMargin < s.mBottomMargin ∧ s.mBottomMargin ≤ s.mRows

/-- What goes to another row. -/
inductive RowOp
  | lineFeed
  | index
  | nextLine
  | reverseIndex
  | print (c : Int)

namespace RowOp

variable [Platform]

def body : RowOp → EmulatorM Unit
  | lineFeed => processUndecoded 10
  | index => doEsc 68
  | nextLine => doEsc 69
  | reverseIndex => doEsc 77
  | print c => emit c

omit [Platform] in
def move : RowOp → RegionView.Move
  | lineFeed | index | nextLine => .down
  | reverseIndex => .up
  | print _ => .wrap

/-- A character is about to wrap. -/
def Applies (s : TerminalEmulator) : RowOp → Prop
  | print c => s.autoWrapEnabled ∧ s.mCursorCol = s.mColumns - 1 ∧
      (s.mAboutToAutoWrap ∨ charWidth c = 2)
  | _ => True

/-- A combining character that goes to the row in front of a region of one row. -/
def Escapes (s : TerminalEmulator) : RowOp → Prop
  | print c => charWidth c = 0 ∧ 0 < s.mTopMargin ∧ s.mTopMargin + 1 = s.mBottomMargin
  | _ => False

instance (s : TerminalEmulator) (op : RowOp) : Decidable (op.Applies s) := by
  cases op <;> unfold Applies <;> infer_instance

instance (s : TerminalEmulator) (op : RowOp) : Decidable (op.Escapes s) := by
  cases op <;> unfold Escapes <;> infer_instance

end RowOp

instance (d : UnicodeTranscript) : Decidable (Ring d) :=
  decidable_of_iff (d.mLines.length = d.mTotalRows ∧ d.mColor.length = d.mTotalRows ∧
      d.mLineWrap.length = d.mTotalRows ∧ d.mScreenFirstRow < d.mTotalRows ∧
      d.getActiveRows ≤ d.mTotalRows)
    ⟨fun ⟨h1, h2, h3, h4, h5⟩ => ⟨h1, h2, h3, h4, h5⟩, fun ⟨h1, h2, h3, h4, h5⟩ =>
      ⟨h1, h2, h3, h4, h5⟩⟩

instance (s : TerminalEmulator) : Decidable (Placed s) :=
  decidable_of_iff
    (Ring s.mScreen.mData ∧ s.mScreen.mData.mScreenRows < s.mScreen.mData.mTotalRows ∧
      (s.mScreen.mData.mScreenRows : Int) = s.mRows ∧
      (0 ≤ s.mCursorRow ∧ s.mCursorRow < s.mRows) ∧
      0 ≤ s.mTopMargin ∧ s.mTopMargin < s.mBottomMargin ∧ s.mBottomMargin ≤ s.mRows)
    ⟨fun ⟨h1, h2, h3, h4, h5⟩ => ⟨h1, h2, h3, h4, h5⟩, fun ⟨h1, h2, h3, h4, h5⟩ =>
      ⟨h1, h2, h3, h4, h5⟩⟩

variable {s t : TerminalEmulator}

/-- The rows of the screen around the region. -/
def Around (s : TerminalEmulator) (y : Nat) : Prop :=
  y < s.mScreen.mData.mScreenRows ∧ ¬ s.regionView.Inside y

theorem Placed.stays (hs : Placed s) (Q : Nat → Prop) : Stays Q s.mScreen.mData s.mScreen.mData :=
  (Fixes.refl _).stays hs.ring

/-- The rows around the region stay, and so does the region. -/
theorem locksAhead_of_stays {m : RegionView.Move} (hin : s.regionView.Inside s.mCursorRow)
    (ht : Stays s.Around s.mScreen.mData t.mScreen.mData) :
    RegionView.LocksAhead m s.regionView t.regionView := by
  refine RegionView.locksAhead_of_inside hin fun y hy => ?_
  unfold regionView
  simp only [List.getElem?_map, ht.screenRows]
  by_cases hlt : y < s.mScreen.mData.mScreenRows
  · rw [List.getElem?_range hlt, Option.map_some, Option.map_some, ht.kept y hlt ⟨hlt, hy⟩]
  · rw [List.getElem?_eq_none (by rw [List.length_range]; omega)]
    rfl

theorem length_rows (hs : Placed s) : (s.regionView.rows.length : Int) = s.mRows := by
  rw [← hs.rows]
  simp only [regionView, List.length_map, List.length_range]

theorem cursor_locks (hs : Placed s) {m : RegionView.Move} {row : Int}
    (hup : s.mCursorRow - 1 ≤ row) (hdown : row ≤ s.mCursorRow + 1) (hin : 0 ≤ row ∧ row < s.mRows) :
    RegionView.LocksAhead m s.regionView { s.regionView with cursor := row } := by
  refine RegionView.locksAhead_of_moved hup hdown hin.1 ?_
  rw [length_rows hs]
  exact hin.2

/-- Rows of the region are none of those around it. -/
theorem avoids_around (hs : Placed s) {row : Int} (hrow : s.regionView.Inside row) :
    s.mScreen.mData.Avoids s.Around row := by
  obtain ⟨htop, _, _⟩ := hs.margins
  have hroom := hs.room
  have hlo : s.mTopMargin ≤ row := hrow.1
  intro y hy hout
  refine ⟨fun heq => ?_, fun heq => ?_⟩
  · rw [heq] at hrow
    exact hout.2 hrow
  · have hlt := hout.1
    omega

/-- `t` is `s` with other contents of the screen, for which `J` holds. -/
structure Redrawn (J : UnicodeTranscript → Prop) (s t : TerminalEmulator) : Prop where
  data : J t.mScreen.mData
  fields : ∃ screen, t = { s with mScreen := screen }

theorem Redrawn.refl {J : UnicodeTranscript → Prop} (h : J s.mScreen.mData) : Redrawn J s s :=
  ⟨h, _, rfl⟩

theorem keeps_redrawn {J : UnicodeTranscript → Prop} {α : Type} {x : TranscriptM α}
    (h : Keeps J x) : Keeps (Redrawn J s) (onScreen (TranscriptScreen.onData x)) := by
  intro t ht
  unfold onScreen TranscriptScreen.onData
  rw [wp_onField, wp_onField]
  obtain ⟨_, hfields⟩ := ht.fields
  have hput (data : UnicodeTranscript) (hdata : J data) :
      Redrawn J s { t with mScreen := { t.mScreen with mData := data } } := by
    refine ⟨hdata, { t.mScreen with mData := data }, ?_⟩
    rw [hfields]
  exact wp_mono (h _ ht.data) (fun _ data hdata => hput data hdata) fun _ data hdata =>
    hput data hdata

/-! ## §3  Line feeds and the reverse index -/

theorem scroll_redrawn {J : UnicodeTranscript → Prop} (hs : J s.mScreen.mData)
    (h : ∀ style, Keeps J (UnicodeTranscript.scroll s.mTopMargin s.mBottomMargin style)) :
    wp scroll
      (fun _ t => Redrawn J { s with mScrollCounter := iadd s.mScrollCounter 1 } t)
      (fun _ t => Redrawn J { s with mScrollCounter := iadd s.mScrollCounter 1 } t) s := by
  unfold scroll
  rw [wp_bind, wp_modify, wp_bind, wp_get]
  exact keeps_redrawn (h _) _ (.refl hs)

theorem stays_scroll (hs : Placed s) (style : Style) :
    Keeps (Stays s.Around s.mScreen.mData)
      (UnicodeTranscript.scroll s.mTopMargin s.mBottomMargin style) := by
  obtain ⟨htop, hlt, hle⟩ := hs.margins
  have hrows := hs.rows
  have hcastTop : ((s.mTopMargin.toNat : Nat) : Int) = s.mTopMargin := by omega
  have hcastBottom : ((s.mBottomMargin.toNat : Nat) : Int) = s.mBottomMargin := by omega
  have hkeeps := @UnicodeTranscript.stays_scroll s.Around s.mScreen.mData hs.room
    s.mTopMargin.toNat s.mBottomMargin.toNat (by omega) (by omega) style fun y hy => by
      have hout : ¬ (s.mTopMargin ≤ y ∧ (y : Int) < s.mBottomMargin) := hy.2
      omega
  rw [hcastTop, hcastBottom] at hkeeps
  exact hkeeps

theorem doLinefeed_locks (hs : Placed s) :
    wp doLinefeed (fun _ t => RegionView.LocksAhead .down s.regionView t.regionView)
      (fun _ t => RegionView.LocksAhead .down s.regionView t.regionView) s := by
  obtain ⟨htop, hlt, hle⟩ := hs.margins
  obtain ⟨hrow, hrow'⟩ := hs.row
  unfold doLinefeed
  rw [wp_bind, wp_get, wp_ite]
  refine ⟨fun hlast => ?_, fun hmore => ?_⟩
  · have hlocks (t : TerminalEmulator) (ht : Stays s.Around s.mScreen.mData t.mScreen.mData) :
        RegionView.LocksAhead .down s.regionView t.regionView := by
      by_cases hin : s.regionView.Inside s.mCursorRow
      · exact locksAhead_of_stays hin ht
      · refine RegionView.locksAhead_of_not hin fun hahead => ?_
        have habove : s.mCursorRow < s.mTopMargin := hahead
        omega
    rw [wp_bind]
    refine wp_mono (scroll_redrawn (hs.stays _) (stays_scroll hs)) (fun _ t ht => ?_) fun _ t ht =>
      hlocks t ht.data
    rw [setCursorRow, wp_modify]
    exact hlocks { t with mCursorRow := s.mBottomMargin - 1, mAboutToAutoWrap := false } ht.data
  · rw [setCursorRow, wp_modify]
    have hin : 0 ≤ s.mCursorRow + 1 ∧ s.mCursorRow + 1 < s.mRows := by omega
    exact cursor_locks hs (show s.mCursorRow - 1 ≤ s.mCursorRow + 1 by omega) (Int.le_refl _) hin

/-- Where the column of the cursor is plays no part. -/
theorem nextLine_locks (hs : Placed s) :
    wp (do
        setCursorCol 0
        doLinefeed : EmulatorM Unit)
      (fun _ t => RegionView.LocksAhead .down s.regionView t.regionView)
      (fun _ t => RegionView.LocksAhead .down s.regionView t.regionView) s := by
  rw [wp_bind, setCursorCol, wp_modify]
  exact doLinefeed_locks (s := { s with mCursorCol := 0, mAboutToAutoWrap := false }) { hs with }

variable [Platform]

theorem reverseIndex_locks (hs : Placed s) :
    wp reverseIndex (fun _ t => RegionView.LocksAhead .up s.regionView t.regionView)
      (fun _ t => RegionView.LocksAhead .up s.regionView t.regionView) s := by
  obtain ⟨htop, hlt, hle⟩ := hs.margins
  obtain ⟨hrow, hrow'⟩ := hs.row
  have hrows := hs.rows
  unfold reverseIndex
  rw [wp_bind, wp_get, wp_ite]
  refine ⟨fun hfirst => ?_, fun hmore => ?_⟩
  · have hfree {row : Int} (hlo : s.mTopMargin ≤ row) (hhi : row < s.mBottomMargin) :
        s.mScreen.mData.Avoids s.Around row := avoids_around hs ⟨hlo, hhi⟩
    have hcopy : Keeps (Stays s.Around s.mScreen.mData) (UnicodeTranscript.blockCopy 0 s.mTopMargin
        s.mColumns (s.mBottomMargin - (s.mTopMargin + 1)) 0 (s.mTopMargin + 1)) := by
      refine UnicodeTranscript.keeps_stays fun t ht => ?_
      have hscreen := ht.screenRows
      refine UnicodeTranscript.fixes_blockCopy ht.ring _ _ _ (by omega) (by omega) ?_ ?_
      · exact fun row hlo hhi => ht.avoids (hfree (by omega) (by omega))
      · exact fun row hlo hhi => ht.avoids (hfree (by omega) (by omega))
    have hclear (style : Style) : Keeps (Stays s.Around s.mScreen.mData)
        (UnicodeTranscript.blockSet 0 s.mTopMargin s.mColumns 1 32 style) := by
      refine UnicodeTranscript.keeps_stays fun t ht => ?_
      refine UnicodeTranscript.fixes_blockSet ht.ring _ _ _ _ _ ?_
      exact fun row hlo hhi => ht.avoids (hfree (by omega) (by omega))
    have hlocks (t : TerminalEmulator)
        (ht : Redrawn (Stays s.Around s.mScreen.mData) s t) :
        RegionView.LocksAhead .up s.regionView t.regionView := by
      by_cases hin : s.regionView.Inside s.mCursorRow
      · exact locksAhead_of_stays hin ht.data
      · refine RegionView.locksAhead_of_not hin fun hahead => ?_
        have hbelow : s.mBottomMargin ≤ s.mCursorRow := hahead
        omega
    have hwrites : Keeps (Redrawn (Stays s.Around s.mScreen.mData) s) (do
        onScreen (TranscriptScreen.blockCopy 0 s.mTopMargin s.mColumns
          (s.mBottomMargin - (s.mTopMargin + 1)) 0 (s.mTopMargin + 1))
        blockClear 0 s.mTopMargin s.mColumns 1 : EmulatorM Unit) :=
      (keeps_redrawn hcopy).then (keeps_get_bind fun u => keeps_redrawn (hclear u.getStyle))
    exact wp_mono (hwrites s (.refl (hs.stays _))) (fun _ t ht => hlocks t ht) fun _ t ht =>
      hlocks t ht
  · rw [wp_set]
    have hin : 0 ≤ s.mCursorRow - 1 ∧ s.mCursorRow - 1 < s.mRows := by omega
    exact cursor_locks hs (Int.le_refl _) (show s.mCursorRow - 1 ≤ s.mCursorRow + 1 by omega) hin

/-! ## §4  A character that wraps -/

/-- Nothing but the screen and the column of the cursor changed. -/
structure Drawn (J : UnicodeTranscript → Prop) (s t : TerminalEmulator) : Prop where
  data : J t.mScreen.mData
  cursor : t.mCursorRow = s.mCursorRow
  scrolls : t.mScrollCounter = s.mScrollCounter

variable {J : UnicodeTranscript → Prop}

omit [Platform] in
theorem Redrawn.drawn (h : Redrawn J s t) : Drawn J s t := by
  refine ⟨h.data, ?_, ?_⟩
  all_goals
    obtain ⟨_, rfl⟩ := h.fields
    rfl

/-- A combining character goes to the row above if the cursor just wrapped. -/
theorem placeChar_drawn (ht : Redrawn J s t) (hrow : RowFree J s.mCursorRow) {c width : Int}
    (habove : width = 0 → s.mJustWrapped → RowFree J (s.mCursorRow - 1)) (style : Style) :
    wp (placeChar c style width) (fun _ u => Drawn J s u) (fun _ u => Drawn J s u) t := by
  have hset {row : Int} (hfree : RowFree J row) (x : Int) :
      Keeps (Redrawn J s) (onScreen (TranscriptScreen.set x row c style)) :=
    keeps_redrawn (hfree.set x c style)
  have hdraw {row : Int} (hfree : RowFree J row) (x : Int) :
      wp (onScreen (TranscriptScreen.set x row c style)) (fun _ u => Drawn J s u)
        (fun _ u => Drawn J s u) t :=
    wp_mono (hset hfree x t ht) (fun _ _ hu => hu.drawn) fun _ _ hu => hu.drawn
  have hcursor : t.mCursorRow = s.mCursorRow := ht.drawn.cursor
  have hjust : t.mJustWrapped = s.mJustWrapped := by
    obtain ⟨_, hfields⟩ := ht.fields
    rw [hfields]
  unfold placeChar
  rw [wp_bind, wp_get, hcursor, hjust, wp_ite]
  refine ⟨fun hwidth => ?_, fun _ => ?_⟩
  · rw [wp_ite]
    exact ⟨fun hwrapped => hdraw (habove hwidth hwrapped) _, fun _ => hdraw hrow _⟩
  · rw [wp_bind]
    refine wp_mono (hdraw hrow t.mCursorCol) (fun _ u hu => ?_) fun _ _ hu => hu
    rw [wp_modify]
    exact { hu with }

/-- What `emit` does behind the wrap. -/
theorem drawChar_drawn (hs : J s.mScreen.mData) (hrow : RowFree J s.mCursorRow) {c width : Int}
    (habove : width = 0 → s.mJustWrapped → RowFree J (s.mCursorRow - 1)) (style : Style)
    (autoWrap : Bool) :
    wp (do
        when ((← get).mInsertMode ∧ width ≠ 0) (moveRight width)
        placeChar c style width
        advanceCursor autoWrap width : EmulatorM Unit)
      (fun _ t => Drawn J s t) (fun _ t => Drawn J s t) s := by
  have hmove : wp (when (s.mInsertMode ∧ width ≠ 0) (moveRight width))
      (fun _ t => Redrawn J s t) (fun _ t => Redrawn J s t) s := by
    rw [wp_when]
    refine ⟨fun _ => ?_, fun _ => .refl hs⟩
    unfold moveRight
    rw [wp_bind, wp_get]
    exact keeps_when (fun _ => keeps_redrawn (hrow.copy _ _ _)) s (.refl hs)
  rw [wp_bind, wp_get, wp_bind]
  refine wp_mono hmove (fun _ t ht => ?_) fun _ _ ht => ht.drawn
  rw [wp_bind]
  refine wp_mono (placeChar_drawn ht hrow habove style) (fun _ u hu => ?_) fun _ _ hu => hu
  rw [advanceCursor, wp_modify]
  exact { hu with }

/-- The cursor went to the row below at most, if it did not wrap in the last row. -/
structure Went (J : UnicodeTranscript → Prop) (s t : TerminalEmulator) : Prop where
  data : J t.mScreen.mData
  below : s.mCursorRow + 1 < s.mBottomMargin →
    (t.mCursorRow = s.mCursorRow ∨ t.mCursorRow = s.mCursorRow + 1) ∧
      t.mScrollCounter = s.mScrollCounter

omit [Platform] in
theorem Drawn.went (h : Drawn J s t) : Went J s t :=
  ⟨h.data, fun _ => ⟨.inl h.cursor, h.scrolls⟩⟩

omit [Platform] in
/-- The cursor goes to the row below; or the region scrolls, which keeps `J`. -/
theorem wrapCursor_went (hs : J s.mScreen.mData) {width : Int}
    (hwraps : s.mCursorCol = s.mColumns - 1 ∧ (s.mAboutToAutoWrap ∨ width = 2))
    (hwrap : Keeps J (UnicodeTranscript.setLineWrap s.mCursorRow))
    (hscroll : ¬ s.mCursorRow + 1 < s.mBottomMargin →
      ∀ style, Keeps J (UnicodeTranscript.scroll s.mTopMargin s.mBottomMargin style)) :
    wp (wrapCursor width)
      (fun _ t => Went J s t ∧ t.mCursorRow =
        (if s.mCursorRow + 1 < s.mBottomMargin then s.mCursorRow + 1 else s.mCursorRow))
      (fun _ t => Went J s t) s := by
  unfold wrapCursor
  rw [wp_bind, wp_get, if_pos hwraps, wp_bind]
  refine wp_mono (keeps_redrawn hwrap s (.refl hs)) (fun _ t ht => ?_) fun _ _ ht => ht.drawn.went
  have hcursor : t.mCursorRow = s.mCursorRow := ht.drawn.cursor
  obtain ⟨_, hfields⟩ := ht.fields
  rw [wp_bind, wp_modify, wp_ite]
  refine ⟨fun hbelow => ?_, fun hlast => ?_⟩
  · rw [wp_modify, if_pos hbelow]
    have hnext : t.mCursorRow + 1 = s.mCursorRow + 1 := by rw [hcursor]
    exact ⟨⟨ht.data, fun _ => ⟨.inr hnext, ht.drawn.scrolls⟩⟩, hnext⟩
  · rw [if_neg hlast]
    have hkeeps := hscroll hlast
    have hmargins : t.mTopMargin = s.mTopMargin ∧ t.mBottomMargin = s.mBottomMargin := by
      rw [hfields]
      exact ⟨rfl, rfl⟩
    rw [← hmargins.1, ← hmargins.2] at hkeeps
    have hwent (u : TerminalEmulator) (hu : Redrawn J { { t with
        mCursorCol := 0
        mJustWrapped := true } with mScrollCounter := iadd t.mScrollCounter 1 } u) :
        Went J s u ∧ u.mCursorRow = s.mCursorRow :=
      ⟨⟨hu.data, fun h => absurd h hlast⟩, hu.drawn.cursor.trans hcursor⟩
    refine wp_mono (@scroll_redrawn { t with mCursorCol := 0, mJustWrapped := true } J ht.data hkeeps)
      (fun _ u hu => hwent u hu) fun _ u hu => (hwent u hu).1

/-- The row of a combining character is the one above if the cursor wrapped without a scroll. -/
theorem emit_went (hs : J s.mScreen.mData) {c : Int} (hwraps : (RowOp.print c).Applies s)
    (hrow : RowFree J s.mCursorRow)
    (hbelow : s.mCursorRow + 1 < s.mBottomMargin → RowFree J (s.mCursorRow + 1))
    (hscroll : ¬ s.mCursorRow + 1 < s.mBottomMargin →
      (∀ style, Keeps J (UnicodeTranscript.scroll s.mTopMargin s.mBottomMargin style)) ∧
        (charWidth c = 0 → RowFree J (s.mCursorRow - 1))) :
    wp (emit c) (fun _ t => Went J s t) (fun _ t => Went J s t) s := by
  obtain ⟨hauto, hcolumn, hfull⟩ := hwraps
  unfold emit emitStyled
  rw [wp_bind, wp_get, wp_bind, wp_get]
  show wp (do
    when s.autoWrapEnabled (wrapCursor (charWidth c))
    _ : EmulatorM Unit) _ _ s
  rw [wp_bind, when, if_pos hauto]
  refine wp_mono (wrapCursor_went hs ⟨hcolumn, hfull⟩ hrow.setLineWrap fun h => (hscroll h).1)
    (fun _ t ht => ?_) fun _ _ ht => ht
  obtain ⟨ht, hcursor⟩ := ht
  have hfree : RowFree J t.mCursorRow ∧ (charWidth c = 0 → RowFree J (t.mCursorRow - 1)) := by
    by_cases hmore : s.mCursorRow + 1 < s.mBottomMargin
    · rw [hcursor, if_pos hmore, show s.mCursorRow + 1 - 1 = s.mCursorRow by omega]
      exact ⟨hbelow hmore, fun _ => hrow⟩
    · rw [hcursor, if_neg hmore]
      exact ⟨hrow, (hscroll hmore).2⟩
  have hwent {u : TerminalEmulator} (hu : Drawn J t u) : Went J s u := by
    refine ⟨hu.data, fun hmore => ?_⟩
    rw [hu.cursor, hu.scrolls]
    exact ht.below hmore
  exact wp_mono (drawChar_drawn ht.data hfree.1 (fun hwidth _ => hfree.2 hwidth) s.getStyle
    s.autoWrapEnabled) (fun _ _ hu => hwent hu) fun _ _ hu => hwent hu

/-- All rows but that of the cursor and the one below it. -/
def Apart (s : TerminalEmulator) (y : Nat) : Prop :=
  (y : Int) ≠ s.mCursorRow ∧ (y : Int) ≠ s.mCursorRow + 1

omit [Platform] in
theorem regionView_of_apart (hs : Placed s) (hrow : s.mCursorRow + 1 < s.mRows)
    (ht : Fixes s.Apart s.mScreen.mData t.mScreen.mData) :
    t.regionView.history = s.regionView.history ∧
      ∀ y : Nat, (y : Int) ≠ s.mCursorRow → (y : Int) ≠ s.mCursorRow + 1 →
        t.regionView.rows[y]? = s.regionView.rows[y]? := by
  have hrows := hs.rows
  have hroom := hs.room
  have hle := hs.ring.rows_le
  unfold UnicodeTranscript.getActiveRows at hle
  refine ⟨?_, fun y hne hne' => ?_⟩
  · have hslot (i : Nat) : t.mScreen.mData.slotOfRow i = s.mScreen.mData.slotOfRow i := by
      unfold UnicodeTranscript.slotOfRow
      rw [ht.first, ht.total, ht.active]
    unfold regionView
    simp only [ht.active, hslot]
    refine List.map_congr_left fun i hi => ?_
    have hi' := List.mem_range.mp hi
    have hposition : s.mScreen.mData.slotOfRow i = s.mScreen.mData.screenSlot
        (s.mScreen.mData.mTotalRows - s.mScreen.mData.mActiveTranscriptRows + i) := by
      unfold UnicodeTranscript.slotOfRow UnicodeTranscript.screenSlot
      congr 1
      omega
    rw [hposition]
    refine ht.kept _ (by omega) ?_
    constructor <;> omega
  · unfold regionView
    simp only [List.getElem?_map, ht.screenRows]
    by_cases hlt : y < s.mScreen.mData.mScreenRows
    · rw [List.getElem?_range hlt, Option.map_some, Option.map_some,
        ht.screenRow (hs.ring.screen_le hlt) ⟨hne, hne'⟩]
    · rw [List.getElem?_eq_none (by rw [List.length_range]; omega)]
      rfl

theorem emit_locks (hs : Placed s) {c : Int} (hwraps : (RowOp.print c).Applies s)
    (hescape : ¬ (RowOp.print c).Escapes s) :
    wp (emit c) (fun _ t => RegionView.LocksAhead .wrap s.regionView t.regionView)
      (fun _ t => RegionView.LocksAhead .wrap s.regionView t.regionView) s := by
  obtain ⟨htop, hlt, hle⟩ := hs.margins
  obtain ⟨hrow, hrow'⟩ := hs.row
  have hrows := hs.rows
  have hroom := hs.room
  by_cases hin : s.regionView.Inside s.mCursorRow
  · have hinside : s.mTopMargin ≤ s.mCursorRow ∧ s.mCursorRow < s.mBottomMargin := hin
    have hfree {row : Int} (hlo : s.mTopMargin ≤ row) (hhi : row < s.mBottomMargin) :
        RowFree (Stays s.Around s.mScreen.mData) row :=
      UnicodeTranscript.rowFree_stays (by omega) (avoids_around hs ⟨hlo, hhi⟩)
    have hwent := emit_went (J := Stays s.Around s.mScreen.mData) (hs.stays _) hwraps
      (hfree hinside.1 hinside.2) (fun hmore => hfree (by omega) hmore) fun hlast =>
        ⟨stays_scroll hs, fun hwidth => ?_⟩
    · exact wp_mono hwent (fun _ _ ht => locksAhead_of_stays hin ht.data) fun _ _ ht =>
        locksAhead_of_stays hin ht.data
    · by_cases hwide : s.mTopMargin + 1 < s.mBottomMargin
      · exact hfree (by omega) (by omega)
      · have hfirst : s.mTopMargin = 0 := by
          by_contra hne
          exact hescape ⟨hwidth, by omega, by omega⟩
        refine UnicodeTranscript.rowFree_stays (by omega) fun y hy hout => ?_
        have hlt := hout.1
        constructor <;> omega
  · by_cases hahead : s.mCursorRow < s.mTopMargin
    · have hfree {row : Int} (hlo : 0 ≤ row) (hhi : row < s.mRows)
          (hrow : row = s.mCursorRow ∨ row = s.mCursorRow + 1) :
          RowFree (Fixes s.Apart s.mScreen.mData) row := by
        refine UnicodeTranscript.rowFree_fixes hs.ring (by omega) fun y hy hout => ?_
        obtain ⟨hne, hne'⟩ := hout
        constructor <;> omega
      have hwent := emit_went (J := Fixes s.Apart s.mScreen.mData) (.refl _) hwraps
        (hfree hrow hrow' (.inl rfl)) (fun _ => hfree (by omega) (by omega) (.inr rfl))
        fun hlast => absurd (show s.mCursorRow + 1 < s.mBottomMargin by omega) hlast
      have hlocks {t : TerminalEmulator} (ht : Went (Fixes s.Apart s.mScreen.mData) s t) :
          RegionView.LocksAhead .wrap s.regionView t.regionView := by
        obtain ⟨hcursor, hscrolls⟩ := ht.below (by omega)
        obtain ⟨hhistory, hkept⟩ := regionView_of_apart hs (by omega) ht.data
        refine RegionView.locksAhead_wrap hahead ⟨hhistory, hscrolls, ?_, ?_, ?_⟩ hkept
        · show s.mCursorRow - 1 ≤ t.mCursorRow
          omega
        · show t.mCursorRow ≤ s.mCursorRow + 1
          omega
        · rw [length_rows hs]
          show 0 ≤ t.mCursorRow ∧ t.mCursorRow < s.mRows
          omega
      exact wp_mono hwent (fun _ _ ht => hlocks ht) fun _ _ ht => hlocks ht
    · exact wp_mono (wp_true _ _) (fun _ t _ => RegionView.locksAhead_of_not hin hahead)
        fun _ t _ => RegionView.locksAhead_of_not hin hahead

theorem RowOp.locks (hs : Placed s) {op : RowOp} (hop : op.Applies s) (hescape : ¬ op.Escapes s) :
    RegionView.LocksAhead op.move s.regionView (after op.body s).regionView := by
  refine after_of_wp (I := fun t : TerminalEmulator =>
    RegionView.LocksAhead op.move s.regionView t.regionView) ?_
  cases op with
  | lineFeed => exact doLinefeed_locks hs
  | index => exact doLinefeed_locks hs
  | nextLine => exact nextLine_locks hs
  | reverseIndex => exact reverseIndex_locks hs
  | print c => exact emit_locks hs hop hescape

end TerminalEmulator

end Kbox.Emulatorview
