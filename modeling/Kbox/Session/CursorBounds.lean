import Kbox.Framework.Guards
import Kbox.Session.ScrollRegions
import Kbox.Session.CellRecords

/-!
# Cursor and margins along a run

Every operation clamps the cursor, and three of them miss a case: a step down or to the right whose
sum wraps, margins on a screen of a single row, and a rendition with more arguments than `mArgs`
holds.
-/

namespace Kbox.Session

open Kbox.Framework

/-- Nothing was looked up behind the end of `mArgs`. -/
def NotArgs (e : Exn) : Prop := e ≠ .arrayIndexOutOfBounds .mArgs

namespace TranscriptScreen

/-! ## §1  The screen keeps its shape -/

/-- A screen of so many columns and rows. -/
structure Shaped (columns rows : Nat) (s : TranscriptScreen) : Prop extends WellFormed s where
  columns_eq : s.mColumns = columns
  rows_eq : s.mScreenRows = rows

section Shape

variable {I : TranscriptScreen → Prop} {columns rows : Nat}

theorem arraySet_error {α : Type} {oob e : Exn} {xs : List α} {i : Int} {a : α}
    (h : arraySet oob xs i a = .error e) : e = oob := by
  unfold arraySet at h
  split at h
  · cases h
    rfl
  · cases h

theorem arrayGet_error {α : Type} {oob e : Exn} {xs : List α} {i : Int}
    (h : arrayGet oob xs i = .error e) : e = oob := by
  unfold arrayGet at h
  split at h
  · cases h
    rfl
  · split at h
    · cases h
    · cases h
      rfl

theorem arraycopy_error {α : Type} {oob e : Exn} {src dst : List α} {i j n : Int}
    (h : arraycopy oob src i dst j n = .error e) : e = oob := by
  unfold arraycopy at h
  split at h
  · cases h
    rfl
  · cases h

theorem mapM_error {α β : Type} {P : Exn → Prop} {f : α → Except Exn β} {e : Exn}
    (hf : ∀ a e, f a = .error e → P e) {l : List α} (h : l.mapM f = .error e) : P e := by
  induction l with
  | nil => cases h
  | cons a l ih =>
      rw [List.mapM_cons] at h
      cases ha : f a with
      | error e' =>
          rw [ha] at h
          cases h
          exact hf a _ ha
      | ok b =>
          cases hl : l.mapM f with
          | error e' =>
              rw [ha, hl] at h
              cases h
              exact ih hl
          | ok bs =>
              rw [ha, hl] at h
              cases h

theorem readRow_error {offset : Int} {columns : Nat} {data : List JChar} {e : Exn}
    (h : readRow offset columns data = .error e) : NotArgs e := by
  refine mapM_error (fun i e he => ?_) h
  cases hget : arrayGet (Exn.arrayIndexOutOfBounds .mData) data (offset + (i : Int)) with
  | ok c =>
      rw [hget] at he
      cases he
  | error e' =>
      rw [hget] at he
      cases he
      rw [arrayGet_error hget]
      exact nofun

theorem appended_error {rowBuffer : List JChar} {start len : Int} {e : Exn}
    (h : appended rowBuffer start len = .error e) : NotArgs e := by
  unfold appended at h
  split at h
  · cases h
    exact nofun
  · cases h

theorem guards_externalToInternalRow (row : Int) :
    Guards I NotArgs (externalToInternalRow row) :=
  guards_get_bind fun _ => (guards_throwIf nofun).then
    (guards_ite (fun _ => guards_pure _) fun _ => guards_pure _)

theorem guards_getOffset (row : Int) : Guards I NotArgs (getOffset row) :=
  guards_get_bind fun _ => (guards_externalToInternalRow row).bind fun _ => guards_pure _

theorem guards_storeChar (i : Int) (c : JChar) :
    Guards (Shaped columns rows) NotArgs (storeChar i c) := by
  refine guards_read fun s hs => ?_
  rw [wp_bind, wp_checked]
  refine ⟨fun data hdata => ?_, fun e he => ⟨hs, ?_⟩⟩
  · rw [wp_set]
    exact { hs with data_length := (length_of_arraySet hdata).trans hs.data_length }
  · rw [arraySet_error he]
    exact nofun

theorem guards_blockSet (sx sy w h val : Int) (f b : Nat) :
    Guards (Shaped columns rows) NotArgs (blockSet sx sy w h val f b) :=
  guards_get_bind fun _ => (guards_throwIf nofun).then (guards_repeatFor fun _ =>
    (guards_getOffset _).bind fun _ => guards_repeatFor fun _ => guards_storeChar _ _)

theorem guards_copyData (src dst len : Int) :
    Guards (Shaped columns rows) NotArgs (copyData src dst len) := by
  refine guards_read fun s hs => ?_
  rw [wp_bind, wp_checked]
  refine ⟨fun data hdata => ?_, fun e he => ⟨hs, ?_⟩⟩
  · rw [wp_set]
    exact { hs with data_length := (arraycopy_spec hdata).1.trans hs.data_length }
  · rw [arraycopy_error he]
    exact nofun

theorem guards_blockCopy (sx sy w h dx dy : Int) :
    Guards (Shaped columns rows) NotArgs (blockCopy sx sy w h dx dy) := by
  have hrow (y : Nat) : Guards (Shaped columns rows) NotArgs (copyRow sx sy w dx dy y) :=
    (guards_getOffset _).bind fun _ => (guards_getOffset _).bind fun _ => guards_copyData _ _ _
  exact guards_get_bind fun _ => (guards_throwIf nofun).then
    (guards_ite (fun _ => guards_repeatFor fun _ => hrow _)
      fun _ => guards_repeatFor fun _ => hrow _)

theorem guards_getTranscriptText : Guards I NotArgs getTranscriptText := by
  refine guards_get_bind fun _ => guards_get_bind fun _ => Guards.bind (guards_mapM fun i => ?_)
    fun _ => guards_pure _
  refine (guards_getOffset _).bind fun _ => guards_get_bind fun _ => ?_
  refine (guards_checked fun _ he => readRow_error he).bind fun rowBuffer => ?_
  refine guards_ite (fun _ => (guards_externalToInternalRow _).bind fun r => ?_)
    fun _ => guards_pure _
  refine (guards_checked fun _ he => arrayGet_error he ▸ nofun).bind fun wrap => ?_
  refine guards_ite (fun _ => guards_checked fun _ he => appended_error he) fun _ => ?_
  exact (guards_checked fun _ he => appended_error he).bind fun _ => guards_pure _

end Shape

end TranscriptScreen

namespace TerminalEmulator

/-! ## §2  The emulator between two bytes -/

/-- The cursor is on the screen, the margins enclose a region, and the cursor waits in the last
column for the character that wraps. -/
structure InBounds (s : TerminalEmulator) : Prop where
  row : 0 ≤ s.mCursorRow ∧ s.mCursorRow < s.mRows
  column : 0 ≤ s.mCursorCol ∧ s.mCursorCol < s.mColumns
  margins : 0 ≤ s.mTopMargin ∧ s.mTopMargin < s.mBottomMargin ∧ s.mBottomMargin ≤ s.mRows
  wrap : s.mAboutToAutoWrap = true → s.mCursorCol = s.mColumns - 1

/-- What a character needs of the emulator that it is drawn in. -/
structure Drawable (s : TerminalEmulator) : Prop extends Placed s where
  saved : 0 ≤ s.mSavedCursorRow ∧ 0 ≤ s.mSavedCursorCol
  args : ∀ (i : Nat) (h : i < maxEscapeParameters), s.mArgs[i] ≤ intMax

/-- What the operations keep. -/
structure Kept (s : TerminalEmulator) : Prop extends Drawable s where
  wrap : s.mAboutToAutoWrap = true → s.mCursorCol = s.mColumns - 1

theorem Kept.inBounds {s : TerminalEmulator} (hs : Kept s) : InBounds s :=
  ⟨hs.row, hs.column, hs.margins, hs.wrap⟩

/-- `x` run from `s` leaves a state that is kept, and looks nothing up behind `mArgs`. -/
abbrev Safely {α : Type} (x : EmulatorM α) (s : TerminalEmulator) : Prop :=
  wp x (fun _ => Kept) (fun e t => Kept t ∧ NotArgs e) s

section Operations

variable {s t : TerminalEmulator}

theorem guards_onScreen {α : Type} {x : ScreenM α}
    (hx : ∀ columns rows, Guards (TranscriptScreen.Shaped columns rows) NotArgs x) :
    Guards Kept NotArgs (onScreen x) := by
  refine guards_onField (J := fun s => TranscriptScreen.Shaped s.mScreen.mColumns
    s.mScreen.mScreenRows) (fun s _ => hx _ _) (fun s hs => ?_) fun s t hs ht => ?_
  · exact { hs.screen with columns_eq := rfl, rows_eq := rfl }
  · refine { hs with screen := ht.toWellFormed, columns := ?_, rows := ?_ }
    · exact (congrArg Int.ofNat ht.columns_eq).trans hs.columns
    · exact (congrArg Int.ofNat ht.rows_eq).trans hs.rows

theorem guards_blockClear (sx sy w h : Int) : Guards Kept NotArgs (blockClear sx sy w h) :=
  guards_get_bind fun _ => guards_onScreen fun _ _ => TranscriptScreen.guards_blockSet _ _ _ _ _ _ _

theorem guards_copy (sx sy w h dx dy : Int) :
    Guards Kept NotArgs (onScreen (TranscriptScreen.blockCopy sx sy w h dx dy)) :=
  guards_onScreen fun _ _ => TranscriptScreen.guards_blockCopy _ _ _ _ _ _

/-! The cursor. -/

theorem safely_setCursorRow (hs : Kept s) {row : Int} (h : 0 ≤ row ∧ row < s.mRows) :
    Safely (setCursorRow row) s := by
  refine (wp_modify _ _ _ _).mpr ?_
  exact { hs with row := h, wrap := nofun }

theorem safely_setCursorCol (hs : Kept s) {col : Int} (h : 0 ≤ col ∧ col < s.mColumns) :
    Safely (setCursorCol col) s := by
  refine (wp_modify _ _ _ _).mpr ?_
  exact { hs with column := h, wrap := nofun }

theorem safely_setCursorRowCol (hs : Kept s) {row col : Int} (hrow : 0 ≤ row) (hcol : 0 ≤ col) :
    Safely (setCursorRowCol row col) s := by
  obtain ⟨hrow', hrow''⟩ := hs.row
  obtain ⟨hcol', hcol''⟩ := hs.column
  refine (wp_modify _ _ _ _).mpr ?_
  refine { hs with row := ?_, column := ?_, wrap := nofun }
  · show 0 ≤ min row (s.mRows - 1) ∧ min row (s.mRows - 1) < s.mRows
    omega
  · show 0 ≤ min col (s.mColumns - 1) ∧ min col (s.mColumns - 1) < s.mColumns
    omega

theorem guards_setCursorPosition (x y : Int) : Guards Kept NotArgs (setCursorPosition x y) := by
  refine guards_read fun s hs => safely_setCursorRowCol hs ?_ ?_
  · have htop := hs.margins.1
    split_ifs
    · exact le_max_of_le_left htop
    · exact le_max_of_le_left (Int.le_refl 0)
  · exact le_max_of_le_left (Int.le_refl 0)

/-! Line feeds and characters. -/

theorem scroll_returns (hs : Placed s) :
    returns scroll (fun _ t => Consistent t ∧ ∃ screen counter,
      t = { s with mScreen := screen, mScrollCounter := counter }) s := by
  refine returns_mono (scroll_draws hs) fun _ t ht => ⟨?_, ?_⟩
  · refine ht.consistent { hs with } rfl ?_
    rw [ScrollBuffer.length_cells, ScrollBuffer.length_cells]
    have hmargins := hs.margins
    have hrows := hs.rows
    refine ScrollBuffer.length_screen_scroll (by omega) ?_
    rw [length_buffer]
    omega
  · obtain ⟨screen, rfl⟩ := ht.fields
    exact ⟨screen, _, rfl⟩

theorem returns_scroll_kept (hs : Kept s) :
    returns scroll (fun _ t => Kept t ∧ t.mBottomMargin = s.mBottomMargin ∧ t.mRows = s.mRows)
      s := by
  refine returns_mono (scroll_returns hs.toPlaced) ?_
  rintro _ _ ⟨hcons, screen, counter, rfl⟩
  exact ⟨{ hcons with
    row := hs.row, column := hs.column, margins := hs.margins, wrap := hs.wrap,
    saved := hs.saved, args := hs.args }, rfl, rfl⟩

theorem guards_doLinefeed : Guards Kept NotArgs doLinefeed := by
  refine guards_read fun s hs => ?_
  have hmargins := hs.margins
  have hrow := hs.row
  refine (wp_ite _ _ _ _ _).mpr ⟨fun hlast => ?_, fun hbelow => ?_⟩
  · rw [wp_bind]
    refine wp_of_returns (returns_scroll_kept hs) fun _ t ht => ?_
    obtain ⟨ht, hbottom, hrows⟩ := ht
    exact safely_setCursorRow ht (by omega)
  · exact safely_setCursorRow hs (by omega)

theorem onScreen_other {α : Type} (x : ScreenM α) :
    wp (onScreen x) (fun _ t => ∃ screen, t = { s with mScreen := screen }) (fun _ _ => True)
      s := by
  unfold onScreen
  rw [wp_onField]
  exact wp_mono (wp_true _ _) (fun _ _ _ => ⟨_, rfl⟩) fun _ _ _ => trivial

/-- The fields that a character leaves alone. -/
def Carried (t : TerminalEmulator) : Prop :=
  (0 ≤ t.mSavedCursorRow ∧ 0 ≤ t.mSavedCursorCol) ∧
    ∀ (i : Nat) (h : i < maxEscapeParameters), t.mArgs[i] ≤ intMax

theorem carried_wrapCursor : Keeps Carried wrapCursor := by
  have honScreen {α : Type} (x : ScreenM α) : Keeps Carried (onScreen x) :=
    keeps_onField (J := fun _ => True) (fun _ _ => wp_true _ _) (fun _ _ => trivial)
      fun _ _ h _ => h
  refine keeps_get_bind fun u => keeps_ite (fun _ => ?_) fun _ => keeps_pure _
  refine (honScreen _).bind fun _ => Keeps.then (keeps_modify fun _ h => h) ?_
  refine keeps_ite (fun _ => keeps_modify fun _ h => h) fun _ => ?_
  exact Keeps.then (keeps_modify fun _ h => h) (keeps_get_bind fun _ => honScreen _)

theorem drawable_wrapCursor (hs : Kept s) : returns wrapCursor (fun _ t => Drawable t) s := by
  obtain ⟨hrow, hrow'⟩ := hs.row
  have hcolumn := hs.column
  have hmargins := hs.margins
  by_cases hwraps : s.mCursorCol = s.mColumns - 1 ∧ s.mAboutToAutoWrap
  · have hboth := wp_and (wrapCursor_wrapped hs.toPlaced hwraps)
      (carried_wrapCursor s ⟨hs.saved, hs.args⟩)
    refine wp_mono hboth (fun _ t ht => ?_) fun _ _ h => h.1
    obtain ⟨ht, hsaved, hargs⟩ := ht
    obtain ⟨hrows, hcolumns⟩ := ht.sizes
    obtain ⟨htop, hbottom⟩ := ht.margins
    refine { ht.toConsistent with
      row := ?_, column := ?_, margins := ?_, saved := hsaved, args := hargs }
    · by_cases hbelow : s.mCursorRow + 1 < s.mBottomMargin
      · rw [(ht.below hbelow).1, hrows]
        omega
      · rw [(ht.scrolled hbelow).1, hrows]
        exact hs.row
    · rw [ht.column, hcolumns]
      omega
    · rw [htop, hbottom, hrows]
      exact hs.margins
  · unfold wrapCursor returns
    rw [wp_bind, wp_get, if_neg hwraps, wp_pure]
    exact hs.toDrawable

theorem drawable_moveRight (hs : Drawable s) : returns moveRight (fun _ t => Drawable t) s := by
  refine returns_mono (moveRight_drawnAt hs.toConsistent hs.row hs.column.1) ?_
  rintro _ t ⟨ht, hsame⟩
  obtain ⟨screen, column, wrap, hfields⟩ := ht.fields
  refine { ht.toConsistent with row := ?_, column := ?_, margins := ?_, saved := ?_, args := ?_ }
  · rw [hfields]
    exact hs.row
  · rw [hsame, hfields]
    exact hs.column
  · rw [hfields]
    exact hs.margins
  · rw [hfields]
    exact hs.saved
  · rw [hfields]
    exact hs.args

theorem emit_kept (hs : Kept s) (b : JByte) : returns (emit b) (fun _ => Kept) s := by
  unfold emit returns
  rw [wp_bind]
  refine wp_of_returns (drawable_wrapCursor hs) fun _ t ht => ?_
  rw [wp_bind, wp_get, wp_bind]
  have hmoved : returns (when t.mInsertMode moveRight) (fun _ u => Drawable u) t := by
    rw [returns, wp_when]
    exact ⟨fun _ => drawable_moveRight ht, fun _ => ht⟩
  refine wp_of_returns hmoved fun _ u hu => ?_
  rw [wp_bind, wp_get, wp_bind]
  have hset := wp_and (set_drawnAt hu.toConsistent hu.row hu.column b.toInt) (onScreen_other _)
  refine wp_mono hset (fun _ v hv => ?_) fun _ _ h => h.1
  obtain ⟨hcons, screen, rfl⟩ := hv
  have hcolumn := hu.column
  rw [wp_modify]
  refine { hcons.toConsistent with
    row := hu.row, column := ?_, margins := hu.margins, wrap := fun hwrap => ?_
    saved := hu.saved, args := hu.args }
  · show 0 ≤ min (u.mCursorCol + 1) (u.mColumns - 1) ∧
      min (u.mCursorCol + 1) (u.mColumns - 1) < u.mColumns
    omega
  · have hlast : u.mCursorCol = u.mColumns - 1 := of_decide_eq_true hwrap
    show min (u.mCursorCol + 1) (u.mColumns - 1) = u.mColumns - 1
    omega

theorem guards_emit (b : JByte) : Guards Kept NotArgs (emit b) :=
  fun _ hs => Guards.of_returns (emit_kept hs b)

/-! ## §3  Sequences -/

theorem guards_finishSequence : Guards Kept NotArgs finishSequence :=
  guards_modify fun _ hs => { hs with }

theorem guards_continueSequenceIn (state : EscapeState) :
    Guards Kept NotArgs (continueSequenceIn state) :=
  guards_modify fun _ hs => { hs with }

theorem guards_startEscapeSequence (state : EscapeState) :
    Guards Kept NotArgs (startEscapeSequence state) := by
  refine guards_modify fun _ hs => { hs with args := fun i h => ?_ }
  rw [Vector.getElem_replicate]
  decide

theorem appendDigit_le {b : JByte} (hb : isDigit b = true) (oldValue : Int) :
    appendDigit oldValue b ≤ intMax := by
  have hdigit : 48 ≤ b.toNat ∧ b.toNat ≤ 57 := of_decide_eq_true hb
  unfold appendDigit intMax
  dsimp only
  split_ifs
  · unfold iadd
    exact (isInt_wrap32 _).2
  · omega

theorem guards_parseArg (b : JByte) : Guards Kept NotArgs (parseArg b) := by
  refine guards_ite (fun _ => ?_) fun _ => guards_ite (fun _ => ?_) fun _ => guards_finishSequence
  · rename_i hdigit
    refine Guards.then (guards_modify fun s hs => { hs with args := fun i h => ?_ })
      (guards_modify fun _ hs => { hs with })
    show (if h : s.mArgIndex < maxEscapeParameters then
        s.mArgs.set s.mArgIndex (appendDigit s.mArgs[s.mArgIndex] b) else s.mArgs)[i] ≤ intMax
    split_ifs
    · rw [Vector.getElem_set]
      split_ifs
      · exact appendDigit_le hdigit _
      · exact hs.args i h
    · exact hs.args i h
  · exact Guards.then (guards_modify fun _ hs => { hs with })
      (guards_modify fun _ hs => { hs with })

theorem guards_setTabStop (i : Int) (value : Bool) : Guards Kept NotArgs (setTabStop i value) := by
  refine guards_read fun s hs => ?_
  rw [wp_bind, wp_checked]
  refine ⟨fun tabStop _ => ?_, fun e he => ⟨hs, ?_⟩⟩
  · rw [wp_set]
    exact { hs with }
  · rw [TranscriptScreen.arraySet_error he]
    exact nofun

theorem guards_doSelectCharSet (b : JByte) : Guards Kept NotArgs (doSelectCharSet b) :=
  guards_ite (fun _ => guards_pure _) fun _ => guards_finishSequence

theorem guards_doEscPound (b : JByte) : Guards Kept NotArgs (doEscPound b) := by
  unfold doEscPound
  split
  · exact guards_get_bind fun _ => guards_onScreen fun _ _ =>
      TranscriptScreen.guards_blockSet _ _ _ _ _ _ _
  · exact guards_finishSequence

theorem guards_reverseIndex : Guards Kept NotArgs reverseIndex := by
  refine guards_read fun s hs => (wp_ite _ _ _ _ _).mpr ⟨fun _ => ?_, fun habove => ?_⟩
  · exact ((guards_copy _ _ _ _ _ _).then (guards_blockClear _ _ _ _)) s hs
  · have hrow := hs.row
    have hmargins := hs.margins
    rw [wp_set]
    exact { hs with row := (by omega : 0 ≤ s.mCursorRow - 1 ∧ s.mCursorRow - 1 < s.mRows) }

theorem guards_doEsc (b : JByte) : Guards Kept NotArgs (doEsc b) := by
  unfold doEsc
  split
  case h_4 => -- DECSC
    exact guards_modify fun s hs => { hs with saved := ⟨hs.row.1, hs.column.1⟩ }
  case h_5 => -- DECRC
    exact guards_read fun s hs => safely_setCursorRowCol hs hs.saved.1 hs.saved.2
  case h_6 => exact guards_doLinefeed
  case h_7 => -- NEL
    refine Guards.then (fun s hs => safely_setCursorCol hs ?_) guards_doLinefeed
    have hcolumn := hs.column
    omega
  case h_8 =>
    refine guards_read fun s hs => safely_setCursorRowCol hs (Int.le_refl 0) ?_
    have hmargins := hs.margins
    omega
  case h_9 => exact guards_get_bind fun _ => guards_setTabStop _ _
  case h_10 => exact guards_reverseIndex
  all_goals exact guards_modify fun _ hs => { hs with }

theorem guards_editCopy {sx sy w h dx dy sx' sy' w' h' : TerminalEmulator → Int} :
    Guards Kept NotArgs (do
      let s ← get
      onScreen (TranscriptScreen.blockCopy (sx s) (sy s) (w s) (h s) (dx s) (dy s))
      blockClear (sx' s) (sy' s) (w' s) (h' s) : EmulatorM Unit) :=
  guards_get_bind fun _ => (guards_copy _ _ _ _ _ _).then (guards_blockClear _ _ _ _)

theorem guards_eraseInDisplay : Guards Kept NotArgs eraseInDisplay := by
  refine guards_get_bind fun s => ?_
  split
  · exact (guards_blockClear _ _ _ _).then (guards_blockClear _ _ _ _)
  · exact (guards_blockClear _ _ _ _).then (guards_blockClear _ _ _ _)
  · exact guards_blockClear _ _ _ _
  · exact guards_finishSequence

theorem guards_eraseInLine : Guards Kept NotArgs eraseInLine := by
  refine guards_get_bind fun s => ?_
  split
  · exact guards_blockClear _ _ _ _
  · exact guards_blockClear _ _ _ _
  · exact guards_blockClear _ _ _ _
  · exact guards_finishSequence

theorem guards_clearTabStop : Guards Kept NotArgs clearTabStop := by
  refine guards_read fun s hs => ?_
  split
  · exact guards_setTabStop _ _ s hs
  · have hcleared (tabStop : List Bool) : Kept { s with mTabStop := tabStop } := { hs with }
    rw [wp_bind, wp_set, wp_throwIf]
    exact ⟨fun _ => ⟨hcleared _, nofun⟩, fun _ => hcleared _⟩
  · rw [wp_pure]
    exact hs

theorem guards_doSetMode (newValue : Bool) : Guards Kept NotArgs (doSetMode newValue) := by
  refine guards_get_bind fun s => ?_
  split
  · exact guards_modify fun _ hs => { hs with }
  · exact guards_modify fun _ hs => { hs with }
  · exact guards_pure _

theorem guards_setHorizontalVerticalPosition :
    Guards Kept NotArgs setHorizontalVerticalPosition :=
  guards_get_bind fun _ => guards_setCursorPosition _ _

theorem Kept.margined (hs : Kept s) {top bottom : Int}
    (h : 0 ≤ top ∧ top < bottom ∧ bottom ≤ s.mRows) :
    Kept { s with mTopMargin := top, mBottomMargin := bottom } :=
  { hs with margins := h }

/-- Margins need two rows. -/
theorem safely_setMargins (hs : Kept s) (hrows : 2 ≤ s.mRows) : Safely setMargins s := by
  unfold setMargins
  rw [Safely, wp_bind, wp_get, wp_bind, wp_modify]
  generalize s.getArg0 1 = top
  generalize s.getArg1 s.mRows = bottom
  refine safely_setCursorRowCol (hs.margined ?_) (le_max_left 0 _) (Int.le_refl 0)
  omega

theorem Kept.applyRendition (hs : Kept s) (code : Int) : Kept (applyRendition code s) := by
  unfold TerminalEmulator.applyRendition
  repeat
    refine iteInduction (fun _ => ?_) fun _ => ?_
    · exact { hs with }
  exact { hs with }

/-- As long as the arguments are there. -/
theorem safely_renditionFrom (fuel i : Nat) (hroom : i + fuel ≤ maxEscapeParameters) :
    Guards Kept NotArgs (renditionFrom fuel i) := by
  induction fuel generalizing i with
  | zero => exact guards_pure _
  | succ fuel ih =>
      rw [renditionFrom]
      refine guards_get_bind fun s => ?_
      rw [dif_pos (show i < maxEscapeParameters by omega)]
      refine guards_ite (fun _ => ih (i + 1) (by omega)) fun _ => ?_
      exact Guards.then (guards_modify fun _ hs => hs.applyRendition _) (ih (i + 1) (by omega))

theorem safely_selectGraphicRendition (hs : Kept s) (hargs : s.mArgIndex < maxEscapeParameters) :
    Safely selectGraphicRendition s := by
  unfold selectGraphicRendition
  rw [Safely, wp_bind, wp_get]
  exact safely_renditionFrom _ _ (by omega) s hs

/-! ## §4  Control sequences -/

/-- The final bytes that do not clamp, and what they need. -/
structure FinalInBounds (b : JByte) (s : TerminalEmulator) : Prop where
  down : toChar b = 'B' → s.mCursorRow + s.getArg0 1 ≤ intMax
  right : toChar b = 'C' → s.mCursorCol + s.getArg0 1 ≤ intMax
  margins : toChar b = 'r' → 2 ≤ s.mRows
  rendition : toChar b = 'm' → s.mArgIndex < maxEscapeParameters

theorem Kept.getArg0_le (hs : Kept s) : s.getArg0 1 ≤ intMax := by
  unfold getArg0 getArg
  split_ifs
  · unfold intMax
    decide
  · exact hs.args 0 (by decide)

theorem Kept.isInt (hs : Kept s) : s.mRows ≤ intMax ∧ s.mColumns ≤ intMax := by
  have hrows := hs.rows
  have hcolumns := hs.columns
  have htotal := hs.screen.totalRows_isInt
  have hwidth := hs.screen.columns_isInt
  have hlt := hs.screen.screen_lt
  exact ⟨by omega, by omega⟩

/-- A step against the direction of growth never wraps. -/
theorem isub_range {position n : Int} (hposition : 0 ≤ position ∧ position ≤ intMax)
    (hn : 0 ≤ n ∧ n ≤ intMax) : isub position n = position - n := by
  unfold intMax at *
  refine isub_of_isInt ?_
  unfold IsInt
  omega

theorem iadd_range {position n : Int} (hposition : 0 ≤ position) (hn : 0 ≤ n)
    (hsum : position + n ≤ intMax) : iadd position n = position + n := by
  unfold intMax at *
  refine iadd_of_isInt ?_
  unfold IsInt
  omega

theorem safely_doEscLeftSquareBracket (hs : Kept s) {b : JByte} (hb : FinalInBounds b s) :
    Safely (doEscLeftSquareBracket b) s := by
  obtain ⟨hrow, hrow'⟩ := hs.row
  obtain ⟨hcol, hcol'⟩ := hs.column
  obtain ⟨htop, hregion, hbottom⟩ := hs.margins
  obtain ⟨hrowsInt, hcolumnsInt⟩ := hs.isInt
  have harg := s.getArg0_nonneg
  have hargInt := hs.getArg0_le
  unfold doEscLeftSquareBracket
  rw [Safely, wp_bind, wp_get]
  split
  case h_1 => exact guards_editCopy s hs
  case h_2 => -- Cursor Up
    refine safely_setCursorRow hs ?_
    rw [isub_range ⟨hrow, by omega⟩ ⟨harg, hargInt⟩]
    omega
  case h_3 => -- Cursor Down
    rename_i hdown
    refine safely_setCursorRow hs ?_
    rw [iadd_range hrow harg (hb.down hdown)]
    omega
  case h_4 => -- Cursor Right
    rename_i hright
    refine safely_setCursorCol hs ?_
    rw [iadd_range hcol harg (hb.right hright)]
    omega
  case h_5 => -- Cursor Left
    refine safely_setCursorCol hs ?_
    rw [isub_range ⟨hcol, by omega⟩ ⟨harg, hargInt⟩]
    omega
  case h_6 => exact safely_setCursorCol hs (by omega)
  case h_7 => exact guards_setHorizontalVerticalPosition s hs
  case h_8 => exact guards_eraseInDisplay s hs
  case h_9 => exact guards_eraseInLine s hs
  case h_10 => exact guards_editCopy s hs
  case h_11 => exact guards_editCopy s hs
  case h_12 => exact guards_editCopy s hs
  case h_13 => exact guards_finishSequence s hs
  case h_14 => exact guards_continueSequenceIn _ s hs
  case h_15 => exact guards_modify (fun _ hs => { hs with }) s hs
  case h_16 => exact safely_setCursorRow hs (by omega)
  case h_17 => exact guards_setHorizontalVerticalPosition s hs
  case h_18 => exact guards_clearTabStop s hs
  case h_19 => exact guards_doSetMode _ s hs
  case h_20 => exact guards_doSetMode _ s hs
  case h_21 =>
    rename_i hrendition
    exact safely_selectGraphicRendition hs (hb.rendition hrendition)
  case h_22 =>
    rename_i hmargins
    exact safely_setMargins hs (hb.margins hmargins)
  case h_23 => exact guards_parseArg _ s hs

theorem guards_doEscLSBQuest (b : JByte) : Guards Kept NotArgs (doEscLSBQuest b) := by
  refine guards_get_bind fun s => ?_
  have hflags (mask : BitVec 32) : Guards Kept NotArgs (changeDecFlags b mask) := by
    unfold changeDecFlags
    split
    case h_5 => exact guards_parseArg b
    all_goals exact guards_modify fun _ hs => { hs with }
  refine (hflags _).then ((guards_when fun _ => ?_).then (guards_when fun _ => ?_))
  · exact guards_get_bind fun _ => (guards_blockClear _ _ _ _).then
      fun u hu => safely_setCursorRowCol hu (Int.le_refl 0) (Int.le_refl 0)
  · exact guards_setCursorPosition _ _

theorem tabStopFrom_range (tabStop : List Bool) {columns : Int} (fuel : Nat) {i : Int}
    (hi : 0 ≤ i) (hcolumns : 0 < columns) :
    (∀ v, tabStopFrom tabStop columns fuel i = .ok v → 0 ≤ v ∧ v < columns) ∧
      ∀ e, tabStopFrom tabStop columns fuel i = .error e → NotArgs e := by
  have hlast (v : Int) (h : (.ok (columns - 1) : Except Exn Int) = .ok v) :
      0 ≤ v ∧ v < columns := by
    cases h
    omega
  induction fuel generalizing i with
  | zero => exact ⟨hlast, nofun⟩
  | succ fuel ih =>
      rw [tabStopFrom]
      by_cases hlt : i < columns
      · rw [if_pos hlt]
        cases hget : arrayGet (Exn.arrayIndexOutOfBounds .mTabStop) tabStop i with
        | error e =>
            refine ⟨nofun, fun e' he => ?_⟩
            cases he
            rw [TranscriptScreen.arrayGet_error hget]
            exact nofun
        | ok stop =>
            cases stop with
            | true =>
                refine ⟨fun v hv => ?_, nofun⟩
                cases hv
                exact ⟨hi, hlt⟩
            | false => exact ih (by omega)
      · rw [if_neg hlt]
        exact ⟨hlast, nofun⟩

theorem Kept.mContinue (hs : Kept s) (b : Bool) : Kept { s with mContinueSequence := b } :=
  { hs with }

/-- The byte `b` ends no control sequence that leaves the bounds. -/
def StepInBounds (b : JByte) (s : TerminalEmulator) : Prop :=
  s.mEscapeState = .leftSquareBracket → FinalInBounds b s

theorem safely_processInState (hs : Kept s) {b : JByte} (hb : StepInBounds b s) :
    Safely (processInState b) s := by
  unfold processInState
  rw [Safely, wp_bind, wp_get]
  split
  · exact guards_when (fun _ => guards_emit b) s hs
  · exact guards_doEsc b s hs
  · exact guards_doEscPound b s hs
  · exact guards_doSelectCharSet b s hs
  · exact guards_doSelectCharSet b s hs
  · rename_i hstate
    exact safely_doEscLeftSquareBracket hs (hb hstate)
  · exact guards_doEscLSBQuest b s hs

theorem safely_process (hs : Kept s) {b : JByte} (hb : StepInBounds b s) :
    Safely (process b) s := by
  have hcol := hs.column
  have hhome : 0 ≤ (0 : Int) ∧ 0 < s.mColumns := ⟨Int.le_refl 0, by omega⟩
  unfold process
  split
  · exact guards_pure _ s hs
  · exact guards_pure _ s hs
  · rw [Safely, wp_bind, wp_get]
    exact safely_setCursorCol hs (by omega)
  · obtain ⟨hstop, herror⟩ := tabStopFrom_range s.mTabStop (s.mColumns - s.mCursorCol).toNat
      hcol.1 hhome.2
    rw [Safely, wp_bind, wp_get, wp_bind, wp_checked]
    exact ⟨fun v hv => safely_setCursorCol hs (hstop v hv), fun e he => ⟨hs, herror e he⟩⟩
  · exact safely_setCursorCol hs hhome
  · exact guards_doLinefeed s hs
  · exact guards_doLinefeed s hs
  · exact guards_doLinefeed s hs
  · exact guards_modify (fun _ hs => { hs with }) s hs
  · exact guards_modify (fun _ hs => { hs with }) s hs
  · exact guards_get_bind (fun _ => guards_ite (fun _ => guards_finishSequence.then
      (guards_emit _)) fun _ => guards_pure _) s hs
  · exact guards_get_bind (fun _ => guards_ite (fun _ => guards_finishSequence.then
      (guards_emit _)) fun _ => guards_pure _) s hs
  · exact guards_startEscapeSequence _ s hs
  · exact guards_startEscapeSequence _ s hs
  · rw [Safely, wp_bind, wp_modify, wp_bind]
    refine wp_mono (safely_processInState (hs.mContinue false) fun hstate => ?_)
      (fun _ t ht => ?_) fun _ _ h => h
    · have hfinal := hb hstate
      exact ⟨hfinal.down, hfinal.right, hfinal.margins, hfinal.rendition⟩
    · exact guards_get_bind (fun _ => guards_when fun _ => guards_finishSequence) t ht

/-! ## §5  Runs -/

theorem safely_reset (hs : Consistent s) (hcolumns : 0 < s.mColumns) (hrows : 0 < s.mRows)
    (hargs : ∀ (i : Nat) (h : i < maxEscapeParameters), s.mArgs[i] ≤ intMax) :
    Safely reset s := by
  have hstart : Kept (defaultTabStops (resetFields s)) :=
    { screen := hs.screen, columns := hs.columns, rows := hs.rows,
      row := ⟨Int.le_refl 0, hrows⟩, column := ⟨Int.le_refl 0, hcolumns⟩,
      margins := ⟨Int.le_refl 0, hrows, Int.le_refl _⟩,
      saved := ⟨Int.le_refl 0, Int.le_refl 0⟩, args := hargs, wrap := nofun }
  unfold reset setDefaultTabStops
  rw [Safely, wp_bind, wp_modify, wp_bind, wp_modify]
  exact guards_get_bind (fun _ => guards_blockClear _ _ _ _) _ hstart

/-- A new emulator. -/
theorem kept_create {columns totalRows rows : Nat}
    (hfits : TranscriptScreen.Fits columns totalRows rows) (hrows : 0 < rows)
    (hcreate : create columns totalRows rows = .ok s) : Kept s := by
  obtain ⟨screen, hscreen, hreset⟩ := create_eq_ok hcreate
  obtain ⟨screen', hscreen', hwell, hbuffer⟩ := TranscriptScreen.create_toBuffer hfits 0 7
  cases hscreen.symm.trans hscreen'
  have hcolumns : screen.mColumns = columns := congrArg ScrollBuffer.columns hbuffer
  have hheight : screen.mScreenRows = rows := by
    rw [← TranscriptScreen.length_cells_toBuffer, hbuffer, ScrollBuffer.length_cells]
    exact List.length_replicate
  have hconsistent : Consistent (allocate screen columns rows) :=
    ⟨hwell, congrArg Int.ofNat hcolumns, congrArg Int.ofNat hheight⟩
  have hpos := hfits.columns_pos
  have hargs (i : Nat) (h : i < maxEscapeParameters) :
      (allocate screen columns rows).mArgs[i] ≤ intMax := by
    show (Vector.replicate maxEscapeParameters (0 : Int))[i] ≤ intMax
    rw [Vector.getElem_replicate]
    decide
  have hkept : Safely reset (allocate screen columns rows) :=
    safely_reset hconsistent (show (0 : Int) < columns by omega)
      (show (0 : Int) < rows by omega) hargs
  exact (wp_of_ok hreset).mp hkept

/-- The text is read without a change. -/
theorem getTranscriptText_reads (s : TerminalEmulator) :
    wp (onScreen TranscriptScreen.getTranscriptText) (fun _ t => t = s)
      (fun e t => t = s ∧ NotArgs e) s := by
  have hguards : Guards (fun t => t = s) NotArgs (onScreen TranscriptScreen.getTranscriptText) := by
    refine guards_onField (J := fun u screen => screen = u.mScreen)
      (fun _ _ => TranscriptScreen.guards_getTranscriptText) (fun _ _ => rfl) ?_
    rintro u _ rfl rfl
    rfl
  exact hguards s rfl

/-- A screen of the new size. -/
theorem resize_returns {columns rows : Nat} (f b : Nat) {screen : TranscriptScreen}
    (hfits : TranscriptScreen.Fits columns screen.mTotalRows rows) :
    returns (TranscriptScreen.resize columns rows f b)
      (fun _ => TranscriptScreen.Shaped columns rows) screen := by
  unfold TranscriptScreen.resize
  rw [returns, wp_bind, wp_get]
  refine returns_mono (TranscriptScreen.init_toBuffer hfits f b screen) ?_
  rintro _ t ⟨hwell, -, hbuffer⟩
  refine { hwell with columns_eq := congrArg ScrollBuffer.columns hbuffer, rows_eq := ?_ }
  rw [← TranscriptScreen.length_cells_toBuffer, hbuffer, ScrollBuffer.length_cells]
  exact List.length_replicate

/-- What `setSize` needs: the screen has the new size already. -/
structure Resizing (columns rows : Int) (s : TerminalEmulator) : Prop where
  screen : s.mScreen.WellFormed
  columns : (s.mScreen.mColumns : Int) = columns
  rows : (s.mScreen.mScreenRows : Int) = rows
  margins : 0 ≤ s.mTopMargin ∧ s.mTopMargin < s.mBottomMargin ∧ s.mBottomMargin ≤ s.mRows
  saved : 0 ≤ s.mSavedCursorRow ∧ 0 ≤ s.mSavedCursorCol
  args : ∀ (i : Nat) (h : i < maxEscapeParameters), s.mArgs[i] ≤ intMax

theorem setSize_returns (columns rows : Int) (hs : Resizing columns rows s) (hrows : 0 < rows) :
    returns (setSize columns rows) (fun _ t => Resizing columns rows t ∧ t.mRows = rows ∧
      t.mColumns = columns) s := by
  unfold setSize
  rw [returns, wp_bind, wp_modify, wp_modify]
  by_cases heqRows : s.mRows = rows
  · rw [if_neg (not_not.mpr heqRows)]
    by_cases heqColumns : s.mColumns = columns
    · rw [if_neg (not_not.mpr heqColumns)]
      exact ⟨hs, heqRows, heqColumns⟩
    · rw [if_pos heqColumns]
      exact ⟨{ hs with }, heqRows, rfl⟩
  · rw [if_pos heqRows]
    have hmargins : 0 ≤ (0 : Int) ∧ 0 < rows ∧ rows ≤ rows :=
      ⟨Int.le_refl 0, hrows, Int.le_refl rows⟩
    by_cases heqColumns : s.mColumns = columns
    · rw [if_neg (not_not.mpr heqColumns)]
      exact ⟨{ hs with margins := hmargins }, rfl, heqColumns⟩
    · rw [if_pos heqColumns]
      exact ⟨{ hs with margins := hmargins }, rfl, rfl⟩

theorem guards_replay (text : List JChar) : Guards Kept NotArgs (replay text) := by
  induction text with
  | nil => exact guards_pure _
  | cons c rest ih =>
      unfold replay
      refine guards_ite (fun _ => ?_) fun _ => (guards_emit _).then ih
      refine Guards.then (fun s hs => safely_setCursorCol hs ?_) (guards_doLinefeed.then ih)
      have hcolumn := hs.column
      omega

theorem safely_clearForSize (hs : Kept s) {columns rows : Int} (hcolumns : 1 ≤ columns)
    (hrows : 1 ≤ rows)
    (hfits : TranscriptScreen.Fits columns.toNat s.mScreen.mTotalRows rows.toNat) :
    Safely (clearForSize columns rows) s := by
  obtain ⟨htop, hregion, hbottom⟩ := hs.margins
  unfold clearForSize
  rw [Safely, wp_bind, wp_get, wp_bind, wp_throwIf]
  refine ⟨fun h => absurd h (by omega), fun _ => ?_⟩
  rw [wp_bind, wp_throwIf]
  refine ⟨fun h => absurd h (by omega), fun _ => ?_⟩
  rw [wp_bind]
  refine wp_mono (getTranscriptText_reads s) ?_ ?_
  · rintro text _ rfl
    rw [wp_bind]
    unfold onScreen
    rw [wp_onField]
    refine wp_of_returns (resize_returns _ _ hfits) fun _ screen hscreen => ?_
    rw [wp_bind]
    refine wp_of_returns (setSize_returns columns rows
      ⟨hscreen.toWellFormed, ?_, ?_, hs.margins, hs.saved, hs.args⟩ (by omega)) ?_
    · show (screen.mColumns : Int) = columns
      rw [hscreen.columns_eq]
      omega
    · show (screen.mScreenRows : Int) = rows
      rw [hscreen.rows_eq]
      omega
    · rintro _ u ⟨hu, huRows, huColumns⟩
      have hrow : 0 < u.mRows := by omega
      have hcolumn : 0 < u.mColumns := by omega
      rw [wp_bind, wp_modify, wp_pure]
      exact { hu with
        columns := hu.columns.trans huColumns.symm, rows := hu.rows.trans huRows.symm,
        row := ⟨Int.le_refl 0, hrow⟩, column := ⟨Int.le_refl 0, hcolumn⟩, wrap := nofun }
  · rintro e _ ⟨rfl, he⟩
    exact ⟨hs, he⟩

/-- A resize whose screen fits into the transcript, and any byte but the ones above. -/
def CallInBounds (s : TerminalEmulator) : Call → Prop
  | .byte b => StepInBounds b s
  | .updateSize columns rows => 1 ≤ columns ∧ 1 ≤ rows ∧
      TranscriptScreen.Fits columns.toNat s.mScreen.mTotalRows rows.toNat
  | .reset => True

theorem safely_call (hs : Kept s) {call : Call} (hcall : CallInBounds s call) :
    Safely call.body s := by
  cases call with
  | byte b => exact safely_process hs hcall
  | updateSize columns rows =>
      obtain ⟨hcolumns, hrows, hfits⟩ := hcall
      by_cases hsize : s.mRows = rows ∧ s.mColumns = columns
      · exact (wp_of_ok (updateSize_same hsize)).mpr hs
      · refine (wp_congr (updateSize_eq hsize)).mpr ?_
        rw [wp_bind]
        exact wp_mono (safely_clearForSize hs hcolumns hrows hfits)
          (fun text t ht => guards_replay text t ht) fun _ _ h => h
  | reset =>
      have hrow := hs.row
      have hcolumn := hs.column
      exact safely_reset hs.toConsistent (by omega) (by omega) hs.args

theorem kept_run (hs : Kept s) {calls : List Call}
    (hcalls : ∀ (n : Nat) (hn : n < calls.length), CallInBounds (run (calls.take n) s) calls[n]) :
    Kept (run calls s) := by
  induction calls generalizing s with
  | nil => exact hs
  | cons call calls ih =>
      have hfirst := safely_call hs (hcalls 0 (Nat.zero_lt_succ _))
      refine ih (after_of_wp (wp_mono hfirst (fun _ _ h => h) fun _ _ h => h.1)) fun n hn => ?_
      exact hcalls (n + 1) (Nat.succ_lt_succ hn)

end Operations

/-- The call looks behind the end of `mArgs`. -/
def CallReadsArgs (s : TerminalEmulator) (call : Call) : Prop :=
  ∃ t, call.body s = .error (.arrayIndexOutOfBounds .mArgs) t

/-- The cursor and the margins of every state that a run passes through. -/
theorem run_inBounds {columns totalRows rows : Nat}
    (hfits : TranscriptScreen.Fits columns totalRows rows) (hrows : 0 < rows)
    {s : TerminalEmulator} (hcreate : create columns totalRows rows = .ok s) {calls : List Call}
    (hcalls : ∀ (n : Nat) (hn : n < calls.length), CallInBounds (run (calls.take n) s) calls[n]) :
    ∀ n, InBounds (run (calls.take n) s) ∧
      ∀ hn : n < calls.length, ¬ CallReadsArgs (run (calls.take n) s) calls[n] := by
  intro n
  have hkept : Kept (run (calls.take n) s) := by
    refine kept_run (kept_create hfits hrows hcreate) fun m hm => ?_
    have hlt : m < n ∧ m < calls.length := by
      rw [List.length_take] at hm
      omega
    rw [List.take_take, Nat.min_eq_left (Nat.le_of_lt hlt.1), List.getElem_take]
    exact hcalls m hlt.2
  refine ⟨hkept.inBounds, fun hn => ?_⟩
  rintro ⟨t, ht⟩
  exact ((wp_of_error ht).mp (safely_call hkept (hcalls n hn))).2 rfl

instance (s : TerminalEmulator) : Decidable (InBounds s) :=
  decidable_of_iff ((0 ≤ s.mCursorRow ∧ s.mCursorRow < s.mRows) ∧
      (0 ≤ s.mCursorCol ∧ s.mCursorCol < s.mColumns) ∧
      (0 ≤ s.mTopMargin ∧ s.mTopMargin < s.mBottomMargin ∧ s.mBottomMargin ≤ s.mRows) ∧
      (s.mAboutToAutoWrap = true → s.mCursorCol = s.mColumns - 1))
    ⟨fun ⟨hrow, hcolumn, hmargins, hwrap⟩ => ⟨hrow, hcolumn, hmargins, hwrap⟩,
      fun hs => ⟨hs.row, hs.column, hs.margins, hs.wrap⟩⟩

instance (s : TerminalEmulator) (call : Call) : Decidable (CallReadsArgs s call) :=
  match h : call.body s with
  | .ok _ _ => .isFalse fun ⟨_, ht⟩ => nomatch h.symm.trans ht
  | .error e t => decidable_of_iff (e = .arrayIndexOutOfBounds .mArgs)
      ⟨fun he => ⟨t, he ▸ h⟩, fun ⟨_, ht⟩ => by
        cases h.symm.trans ht
        rfl⟩

/-- A screen that grows before a letter is drawn. -/
theorem run_inBounds_resized : ∃ s, create 3 5 2 = .ok s ∧
    ∀ n, InBounds (run ([.updateSize 4 3, .byte 65].take n) s) ∧
      ∀ hn : n < [Call.updateSize 4 3, .byte 65].length,
        ¬ CallReadsArgs (run ([.updateSize 4 3, .byte 65].take n) s)
          [Call.updateSize 4 3, .byte 65][n] := by
  have hfresh : (create 3 5 2).map (fun s => decide (s.mScreen.mTotalRows = 5 ∧
      (run [.updateSize 4 3] s).mEscapeState = .none)) = .ok true := by
    decide +kernel
  obtain ⟨s, hcreate, htotal, hstate⟩ := exists_create hfresh
  refine ⟨s, hcreate, run_inBounds ⟨by decide, by decide, by decide, by decide⟩ (by decide)
    hcreate fun n hn => ?_⟩
  match n with
  | 0 =>
      refine ⟨by decide, by decide, ?_⟩
      show TranscriptScreen.Fits 4 s.mScreen.mTotalRows 3
      rw [htotal]
      exact ⟨by decide, by decide, by decide, by decide⟩
  | 1 =>
      intro hin
      cases hstate.symm.trans hin

/-- A line feed, and a step down by the greatest parameter. -/
def hugeStep : List Call :=
  [10, 27, 91, 50, 49, 52, 55, 52, 56, 51, 54, 52, 55, 66].map .byte

/-- `ESC [ r` -/
def resetMargins : List Call := [27, 91, 114].map .byte

/-- `ESC [`, and seventeen parameters that are left out. -/
def omittedParameters : List Call := ([27, 91] ++ List.replicate 16 59).map .byte

theorem run_leaves_bounds :
    (∃ s, create 3 5 2 = .ok s ∧ ¬ InBounds (run hugeStep s)) ∧
      (∃ s, create 3 5 1 = .ok s ∧ ¬ InBounds (run resetMargins s)) ∧
      ∃ s, create 3 5 2 = .ok s ∧ CallReadsArgs (run omittedParameters s) (.byte 109) :=
  ⟨exists_create (by decide +kernel), exists_create (by decide +kernel),
    exists_create (by decide +kernel)⟩

end TerminalEmulator

end Kbox.Session
