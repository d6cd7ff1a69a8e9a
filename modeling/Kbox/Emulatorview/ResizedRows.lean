import Kbox.Emulatorview.RowReading
import Kbox.Emulatorview.SamplePlatform

/-!
# Resizing in place

The rows of a transcript, from the oldest of the history to the last of the
screen, are a stretch of the circular arrays.  A resize moves the ends of that
stretch.  Where it is to grow by more rows than there is history, the slots
behind the screen are cleared first, and more of them than the screen grows
over: the loop comes around to the oldest rows when the array is not large
enough.
-/

namespace Kbox.Emulatorview.UnicodeTranscript

open Kbox.Framework

/-! ## §1  Rows in their slots -/

/-- What a slot holds of a row. -/
structure StoredRow where
  line : Option Line
  color : Option StyleRow
  wrap : Bool
deriving DecidableEq

/-- A row that nothing was written to. -/
def StoredRow.unset : StoredRow := ⟨none, none, false⟩

def slot (s : UnicodeTranscript) (i : Nat) : StoredRow where
  line := s.mLines[i]?.join
  color := s.mColor[i]?.join
  wrap := s.mLineWrap[i]?.getD false

/-- The slot of the `i`-th oldest row. -/
def slotOfRow (s : UnicodeTranscript) (i : Nat) : Nat :=
  (s.mScreenFirstRow + s.mTotalRows - s.mActiveTranscriptRows + i) % s.mTotalRows

/-- The rows of the transcript and the screen. -/
def storedRows (s : UnicodeTranscript) : List StoredRow :=
  (List.range s.getActiveRows).map fun i => s.slot (s.slotOfRow i)

/-- The arrays are as long as they are said to be, and hold the rows. -/
structure Ring (s : UnicodeTranscript) : Prop where
  lines : s.mLines.length = s.mTotalRows
  colors : s.mColor.length = s.mTotalRows
  flags : s.mLineWrap.length = s.mTotalRows
  first_lt : s.mScreenFirstRow < s.mTotalRows
  rows_le : s.getActiveRows ≤ s.mTotalRows

variable {s t : UnicodeTranscript}

theorem length_storedRows (s : UnicodeTranscript) : s.storedRows.length = s.getActiveRows := by
  unfold storedRows
  rw [List.length_map, List.length_range]

theorem getElem?_storedRows (s : UnicodeTranscript) (i : Nat) :
    s.storedRows[i]? = if i < s.getActiveRows then some (s.slot (s.slotOfRow i)) else none := by
  unfold storedRows
  rw [List.getElem?_map]
  by_cases hi : i < s.getActiveRows
  · rw [if_pos hi, List.getElem?_range hi]
    rfl
  · rw [if_neg hi, List.getElem?_eq_none (by rw [List.length_range]; omega)]
    rfl

/-- The slot of a row of the screen or of the history, as `externalToInternalRow` computes
it. -/
theorem internalRow_eq (hs : Ring s) {row : Int} (hrow : s.InRange row) :
    s.internalRow row = s.slotOfRow (row + s.mActiveTranscriptRows).toNat := by
  have hfirst := hs.first_lt
  have hrows := hs.rows_le
  unfold InRange at hrow
  unfold getActiveRows at hrows
  unfold internalRow slotOfRow
  have hsum : s.mScreenFirstRow + s.mTotalRows - s.mActiveTranscriptRows +
      (row + s.mActiveTranscriptRows).toNat = (s.mScreenFirstRow + s.mTotalRows + row).toNat := by
    omega
  rw [hsum]
  split_ifs with hscreen hwrap
  · have hcast : ((s.mScreenFirstRow + s.mTotalRows + row).toNat : Int) =
        s.mScreenFirstRow + row + s.mTotalRows := by omega
    push_cast
    rw [hcast, Int.add_emod_right]
  · have hsmall : (s.mScreenFirstRow + s.mTotalRows + row).toNat < s.mTotalRows := by omega
    rw [Nat.mod_eq_of_lt hsmall]
    omega
  · have hcast : ((s.mScreenFirstRow + s.mTotalRows + row).toNat : Int) =
        s.mScreenFirstRow + row + s.mTotalRows := by omega
    push_cast
    rw [hcast, Int.add_emod_right, Int.emod_eq_of_lt (by omega) (by omega)]

theorem slotOfRow_lt (hs : Ring s) (i : Nat) : s.slotOfRow i < s.mTotalRows :=
  Nat.mod_lt _ (Nat.lt_of_le_of_lt (Nat.zero_le _) hs.first_lt)

/-! ## §2  What is wanted -/

/-- A resize succeeds, and every row is kept as it is and where it is in the order, but for
blank rows below the cursor, which a shrinking screen may hide; a growing one may expose
unset rows.  The cursor stays in its row. -/
def KeepsRows (s : UnicodeTranscript) (newRows cursorRow : Int) : Prop :=
  ∃ newCursorRow t, resize s.mColumns newRows cursorRow s = .ok (true, newCursorRow) t ∧
    (∃ hidden exposed : List StoredRow, t.storedRows ++ hidden = s.storedRows ++ exposed ∧
      (∀ row ∈ hidden, isBlankLine row.line = true) ∧
      (hidden ≠ [] → newRows < s.mScreenRows ∧ cursorRow + hidden.length < s.mScreenRows) ∧
      (∀ row ∈ exposed, row = .unset) ∧ (exposed ≠ [] → s.mScreenRows < newRows)) ∧
    t.mScreenRows = newRows ∧
    t.mActiveTranscriptRows + newCursorRow = s.mActiveTranscriptRows + cursorRow

/-- The rows that the loop comes around to. -/
def overrun (s : UnicodeTranscript) (newRows : Int) : Nat :=
  if s.getActiveRows < newRows then
    (newRows + 2 * s.mActiveTranscriptRows - s.mTotalRows).toNat
  else 0

/-! ## §3  Clearing slots -/

/-- `t` is `s` with some of its slots cleared. -/
structure Cleared (s : UnicodeTranscript) (cleared : Nat → Prop) (t : UnicodeTranscript) :
    Prop where
  arrays : ∃ lines colors flags, t = { s with mLines := lines, mColor := colors, mLineWrap := flags }
  lines : t.mLines.length = s.mTotalRows
  colors : t.mColor.length = s.mTotalRows
  flags : t.mLineWrap.length = s.mTotalRows
  unset : ∀ i, cleared i → i < s.mTotalRows → t.slot i = .unset
  kept : ∀ i, ¬ cleared i → t.slot i = s.slot i

/-- What `clearSlots` does to one slot. -/
def clearSlot (index : Nat) (t : UnicodeTranscript) : UnicodeTranscript :=
  { t with
    mLines := t.mLines.set index none
    mColor := t.mColor.set index none
    mLineWrap := t.mLineWrap.set index false }

theorem slot_clearSlot (t : UnicodeTranscript) (index i : Nat) :
    (clearSlot index t).slot i = if i = index then .unset else t.slot i := by
  simp only [slot, clearSlot, List.getElem?_set]
  by_cases hi : i = index
  · subst hi
    simp only [if_true]
    split_ifs <;> rfl
  · simp only [if_neg hi, if_neg (Ne.symm hi)]

theorem Cleared.clearSlot {cleared : Nat → Prop} (h : Cleared s cleared t) (index : Nat) :
    Cleared s (fun i => cleared i ∨ i = index) (clearSlot index t) where
  arrays := by
    obtain ⟨_, _, _, rfl⟩ := h.arrays
    exact ⟨_, _, _, rfl⟩
  lines := by
    rw [← h.lines]
    exact List.length_set
  colors := by
    rw [← h.colors]
    exact List.length_set
  flags := by
    rw [← h.flags]
    exact List.length_set
  unset i hi hlt := by
    rw [slot_clearSlot]
    split_ifs with heq
    · rfl
    · exact h.unset i (hi.resolve_right heq) hlt
  kept i hi := by
    rw [slot_clearSlot, if_neg fun heq => hi (Or.inr heq)]
    exact h.kept i fun hc => hi (Or.inl hc)

theorem clearSlot_returns {cleared : Nat → Prop} (h : Cleared s cleared t) {index : Nat}
    (hindex : index < s.mTotalRows) :
    returns (do
        setLine index none
        setColor index none
        storeLineWrap index false : TranscriptM Unit)
      (fun _ t' => t' = UnicodeTranscript.clearSlot index t) t := by
  have hline : arraySet (Exn.arrayIndexOutOfBounds .mLines) t.mLines (index : Int) none =
      .ok (t.mLines.set index none) := arraySet_of_lt _ (by rw [h.lines]; exact hindex)
  have hcolor : arraySet (Exn.arrayIndexOutOfBounds .mColor) t.mColor (index : Int) none =
      .ok (t.mColor.set index none) := arraySet_of_lt _ (by rw [h.colors]; exact hindex)
  have hflag : arraySet (Exn.arrayIndexOutOfBounds .mLineWrap) t.mLineWrap (index : Int) false =
      .ok (t.mLineWrap.set index false) := arraySet_of_lt _ (by rw [h.flags]; exact hindex)
  simp only [setLine, setColor, storeLineWrap, wp_bind, wp_get, hline, wp_checked_ok, wp_set,
    hcolor, hflag]
  rfl

/-- The loop of `clearSlots` clears the slots behind the screen, around the end of the arrays. -/
theorem clearSlots_returns (hs : Ring s) (n : Nat) :
    returns (clearSlots n)
      (fun _ => Cleared s fun j => ∃ i < n,
        j = (s.mScreenFirstRow + s.mScreenRows + i) % s.mTotalRows) s := by
  unfold clearSlots
  rw [Int.toNat_natCast]
  simp only [wp_bind, wp_get]
  refine returns_repeatFor (fun n => Cleared s fun j => ∃ i < n,
    j = (s.mScreenFirstRow + s.mScreenRows + i) % s.mTotalRows) ?_ fun i t hi ht => ?_
  · refine ⟨⟨_, _, _, rfl⟩, hs.lines, hs.colors, hs.flags, ?_, fun _ _ => rfl⟩
    rintro j ⟨i, hi, _⟩
    exact absurd hi (by omega)
  · have hindex : ((s.mScreenFirstRow : Int) + s.mScreenRows + i) % s.mTotalRows =
        (((s.mScreenFirstRow + s.mScreenRows + i) % s.mTotalRows : Nat) : Int) := by
      push_cast
      rfl
    rw [hindex]
    have hlt : (s.mScreenFirstRow + s.mScreenRows + i) % s.mTotalRows < s.mTotalRows :=
      Nat.mod_lt _ (Nat.lt_of_le_of_lt (Nat.zero_le _) hs.first_lt)
    refine wp_of_returns (clearSlot_returns ht hlt) ?_
    rintro _ _ rfl
    have hnext := ht.clearSlot ((s.mScreenFirstRow + s.mScreenRows + i) % s.mTotalRows)
    refine ⟨hnext.arrays, hnext.lines, hnext.colors, hnext.flags, ?_, fun j hj => ?_⟩
    · rintro j ⟨k, hk, hj⟩ hlt
      refine hnext.unset j ?_ hlt
      by_cases hki : k = i
      · exact Or.inr (hki ▸ hj)
      · exact Or.inl ⟨k, by omega, hj⟩
    · refine hnext.kept j ?_
      rintro (⟨k, hk, hjk⟩ | hji)
      · exact hj ⟨k, by omega, hjk⟩
      · exact hj ⟨i, by omega, hji⟩

/-! ## §4  Hiding blank rows -/

/-- The rows that are hidden are blank and below the cursor. -/
theorem hideBlankRows_returns (hs : Ring s) (n : Nat) {i shift : Int}
    (hi : -1 ≤ i - n) (hlast : i < s.mScreenRows) (hshift : 0 < shift) :
    returns (hideBlankRows n i shift)
      (fun shift' t => t = s ∧ 0 ≤ shift' ∧ shift - shift' ≤ n ∧ shift' ≤ shift ∧
        ∀ row, i - (shift - shift') < row → row ≤ i →
          isBlankLine (s.mLines[(s.internalRow row).toNat]?.join) = true) s := by
  induction n generalizing i shift with
  | zero =>
      rw [hideBlankRows, returns, wp_pure]
      exact ⟨rfl, by omega, by omega, Int.le_refl _, fun row h1 h2 => by omega⟩
  | succ n ih =>
      have hrange : s.InRange i := ⟨by omega, hlast⟩
      have hinternal := internalRow_eq hs hrange
      have hlt := slotOfRow_lt hs (i + s.mActiveTranscriptRows).toNat
      have hread : arrayGet (Exn.arrayIndexOutOfBounds .mLines) s.mLines (s.internalRow i) =
          .ok (s.mLines[(s.internalRow i).toNat]?.join) := by
        rw [hinternal, Int.toNat_natCast, arrayGet_of_lt (by rw [hs.lines]; exact hlt),
          List.getElem?_eq_getElem (by rw [hs.lines]; exact hlt)]
        rfl
      rw [hideBlankRows, returns, wp_bind,
        wp_of_ok (externalToInternalRow_of_inRange hrange), wp_bind, wp_of_ok (lineAt_of hread)]
      simp only [wp_ite, wp_pure]
      refine ⟨fun hblank => ⟨fun hdone => ?_, fun hmore => ?_⟩, fun _ => ?_⟩
      · refine ⟨trivial, Int.le_refl _, by omega, by omega, fun row h1 h2 => ?_⟩
        obtain rfl : row = i := by omega
        exact hblank
      · refine wp_mono (@ih (i - 1) (shift - 1) (by omega) (by omega) (by omega))
          (fun shift' t => ?_) fun _ _ h => h
        rintro ⟨rfl, hnonneg, hcount, hle, hblanks⟩
        refine ⟨rfl, hnonneg, by omega, by omega, fun row h1 h2 => ?_⟩
        by_cases hrow : row = i
        · rw [hrow]
          exact hblank
        · exact hblanks row (by omega) (by omega)
      · exact ⟨trivial, by omega, by omega, Int.le_refl _, fun row h1 h2 => by omega⟩

/-! ## §5  The shift -/

theorem resizeShift_beyond (hs : Ring s) {newRows cursorRow : Int}
    (h : s.getActiveRows < newRows) :
    returns (resizeShift newRows cursorRow)
      (fun shift t => shift = -(s.mActiveTranscriptRows : Int) ∧
        Cleared s (fun j => ∃ i < (s.mActiveTranscriptRows + newRows - s.mScreenRows).toNat,
          j = (s.mScreenFirstRow + s.mScreenRows + i) % s.mTotalRows) t) s := by
  unfold getActiveRows at h
  have hcount : (s.mActiveTranscriptRows : Int) - (s.mScreenRows - newRows) =
      ((s.mActiveTranscriptRows + newRows - s.mScreenRows).toNat : Int) := by omega
  unfold resizeShift
  simp only [wp_bind, wp_get, wp_ite, wp_pure, hcount]
  refine ⟨fun _ => ?_, fun hnot => absurd (show (s.mScreenRows : Int) - newRows <
    -(s.mActiveTranscriptRows : Int) by omega) hnot⟩
  exact wp_mono (clearSlots_returns hs _) (fun _ _ ht => ⟨trivial, ht⟩) fun _ _ h => h

/-- A shift that leaves the rows alone: behind the new screen there are only rows that are
blank. -/
structure Shifts (s : UnicodeTranscript) (newRows cursorRow shift : Int) : Prop where
  lower : -(s.mActiveTranscriptRows : Int) ≤ shift
  upper : shift ≤ s.mScreenRows - newRows
  shrinks : shift ≠ s.mScreenRows - newRows →
    newRows < s.mScreenRows ∧ newRows + shift > cursorRow
  blank : ∀ row, newRows + shift ≤ row → row < s.mScreenRows →
    isBlankLine (s.mLines[(s.internalRow row).toNat]?.join) = true

theorem resizeShift_within (hs : Ring s) {newRows cursorRow : Int}
    (hcursor : 0 ≤ cursorRow ∧ cursorRow < s.mScreenRows)
    (h : ¬ s.getActiveRows < newRows) :
    returns (resizeShift newRows cursorRow)
      (fun shift t => t = s ∧ Shifts s newRows cursorRow shift) s := by
  unfold getActiveRows at h
  unfold resizeShift
  simp only [wp_bind, wp_get, wp_ite, wp_pure]
  refine ⟨fun hbeyond => by omega, fun hwithin => ⟨fun hboth => ?_, fun _ => ?_⟩⟩
  · obtain ⟨hshift, hlast⟩ := hboth
    refine wp_mono (hideBlankRows_returns hs _ (by omega) (by omega) hshift)
      (fun shift t => ?_) fun _ _ h => h
    rintro ⟨rfl, hnonneg, hcount, hle, hblanks⟩
    exact ⟨rfl, by omega, hle, fun _ => ⟨by omega, by omega⟩,
      fun row h1 h2 => hblanks row (by omega) (by omega)⟩
  · exact ⟨trivial, by omega, Int.le_refl _, fun hne => absurd rfl hne,
      fun row h1 h2 => by omega⟩

/-- The fields after a shift. -/
def shifted (newRows shift : Int) (t : UnicodeTranscript) : UnicodeTranscript :=
  { t with
    mScreenFirstRow :=
      if shift > 0 ∨ (shift < 0 ∧ t.mScreenFirstRow ≥ -shift) then
        ((t.mScreenFirstRow + shift) % t.mTotalRows).toNat
      else if shift < 0 then (t.mTotalRows + t.mScreenFirstRow + shift).toNat
      else t.mScreenFirstRow
    mActiveTranscriptRows := (t.mActiveTranscriptRows + shift).toNat
    mScreenRows := newRows.toNat }

theorem resize_returns {newRows cursorRow : Int} (hrows : newRows ≤ s.mTotalRows)
    {Q : Int → UnicodeTranscript → Prop} (h : returns (resizeShift newRows cursorRow) Q s) :
    returns (resize s.mColumns newRows cursorRow)
      (fun r t => ∃ shift u, Q shift u ∧ r = (true, cursorRow - shift) ∧
        t = shifted newRows shift u) s := by
  unfold resize
  simp only [wp_bind, wp_get, wp_ite, wp_pure, wp_modify]
  refine ⟨fun hnot => by omega, fun _ => ?_⟩
  exact wp_mono h (fun shift u hu => ⟨shift, u, hu, rfl, rfl⟩) fun _ _ h => h

/-- The oldest row stays in its slot. -/
theorem slotOfRow_shifted (hs : Ring s) {newRows shift : Int}
    (hlower : -(s.mActiveTranscriptRows : Int) ≤ shift)
    (hupper : s.mActiveTranscriptRows + shift + newRows ≤ s.mTotalRows) (hrows : 1 ≤ newRows)
    (i : Nat) : (shifted newRows shift s).slotOfRow i = s.slotOfRow i := by
  have hfirst := hs.first_lt
  have hactive := hs.rows_le
  unfold getActiveRows at hactive
  have hmoved : ((shifted newRows shift s).mScreenFirstRow : Int) = s.mScreenFirstRow + shift ∨
      ((shifted newRows shift s).mScreenFirstRow : Int) + s.mTotalRows =
        s.mScreenFirstRow + shift ∨
      ((shifted newRows shift s).mScreenFirstRow : Int) =
        s.mScreenFirstRow + shift + s.mTotalRows := by
    unfold shifted
    simp only []
    split_ifs with hmove hwrap
    · by_cases hend : (s.mScreenFirstRow : Int) + shift < s.mTotalRows
      · rw [Int.emod_eq_of_lt (by omega) hend]
        omega
      · have hround : (s.mScreenFirstRow : Int) + shift =
            s.mScreenFirstRow + shift - s.mTotalRows + s.mTotalRows := by omega
        rw [hround, Int.add_emod_right, Int.emod_eq_of_lt (by omega) (by omega)]
        omega
    · omega
    · omega
  have hhistory : ((shifted newRows shift s).mActiveTranscriptRows : Int) =
      s.mActiveTranscriptRows + shift := by
    show ((s.mActiveTranscriptRows + shift).toNat : Int) = _
    omega
  have htotal : (shifted newRows shift s).mTotalRows = s.mTotalRows := rfl
  unfold slotOfRow
  rw [htotal]
  rcases hmoved with hsame | hless | hmore
  · congr 1
    omega
  · have hsum : s.mScreenFirstRow + s.mTotalRows - s.mActiveTranscriptRows + i =
        (shifted newRows shift s).mScreenFirstRow + s.mTotalRows -
          (shifted newRows shift s).mActiveTranscriptRows + i + s.mTotalRows := by omega
    rw [hsum, Nat.add_mod_right]
  · have hsum : (shifted newRows shift s).mScreenFirstRow + s.mTotalRows -
        (shifted newRows shift s).mActiveTranscriptRows + i =
          s.mScreenFirstRow + s.mTotalRows - s.mActiveTranscriptRows + i + s.mTotalRows := by
      omega
    rw [hsum, Nat.add_mod_right]

/-! ## §6  The rows after a resize -/

/-- The slots that `clearSlots` comes to, as slots of rows: those behind the screen, and the
oldest ones. -/
theorem cleared_slotOfRow (hs : Ring s) {n k : Nat} (hk : k < s.mTotalRows) :
    (∃ i < n, s.slotOfRow k = (s.mScreenFirstRow + s.mScreenRows + i) % s.mTotalRows) ↔
      s.getActiveRows ≤ k ∧ k < s.getActiveRows + n ∨
        k < s.getActiveRows ∧ k + s.mTotalRows < s.getActiveRows + n := by
  have hrows := hs.rows_le
  have hbehind (i : Nat) : (s.mScreenFirstRow + s.mScreenRows + i) % s.mTotalRows =
      s.slotOfRow (s.getActiveRows + i) := by
    unfold slotOfRow
    unfold getActiveRows at hrows ⊢
    have hsum : s.mScreenFirstRow + s.mTotalRows - s.mActiveTranscriptRows +
        (s.mActiveTranscriptRows + s.mScreenRows + i) =
          s.mScreenFirstRow + s.mScreenRows + i + s.mTotalRows := by omega
    rw [hsum, Nat.add_mod_right]
  have haround (i : Nat) : s.slotOfRow (i + s.mTotalRows) = s.slotOfRow i := by
    unfold slotOfRow
    rw [← Nat.add_assoc, Nat.add_mod_right]
  constructor
  · rintro ⟨i, hi, heq⟩
    rw [hbehind] at heq
    by_cases hbelow : k < s.getActiveRows
    · refine Or.inr ⟨hbelow, ?_⟩
      by_contra hshort
      -- the two rows are less than one round apart
      have hdvd : s.mTotalRows ∣ s.getActiveRows + i - k := by
        have hmod : (s.getActiveRows + i) ≡ k [MOD s.mTotalRows] :=
          Nat.ModEq.add_left_cancel' _ heq.symm
        exact (Nat.modEq_iff_dvd' (by omega)).mp hmod.symm
      have hzero := Nat.eq_zero_of_dvd_of_lt hdvd (by omega)
      omega
    · refine Or.inl ⟨by omega, ?_⟩
      by_contra hbeyond
      have hdvd : s.mTotalRows ∣ k - (s.getActiveRows + i) := by
        have hmod : (s.getActiveRows + i) ≡ k [MOD s.mTotalRows] :=
          Nat.ModEq.add_left_cancel' _ heq.symm
        exact (Nat.modEq_iff_dvd' (by omega)).mp hmod
      have hzero := Nat.eq_zero_of_dvd_of_lt hdvd (by omega)
      omega
  · rintro (⟨h1, h2⟩ | ⟨h1, h2⟩)
    · refine ⟨k - s.getActiveRows, by omega, ?_⟩
      rw [hbehind]
      congr 1
      omega
    · refine ⟨k + s.mTotalRows - s.getActiveRows, by omega, ?_⟩
      rw [hbehind, ← haround k]
      congr 1
      omega

theorem slot_shifted (newRows shift : Int) (i : Nat) :
    (shifted newRows shift s).slot i = s.slot i := rfl

/-- The rows after `clearSlots` and the shift that goes with it. -/
theorem getElem?_storedRows_beyond (hs : Ring s) {newRows : Int}
    (hbeyond : s.getActiveRows < newRows) (hrows : newRows ≤ s.mTotalRows)
    (ht : Cleared s (fun j => ∃ i < (s.mActiveTranscriptRows + newRows - s.mScreenRows).toNat,
      j = (s.mScreenFirstRow + s.mScreenRows + i) % s.mTotalRows) t) (k : Nat) :
    (shifted newRows (-(s.mActiveTranscriptRows : Int)) t).storedRows[k]? =
      if k < newRows.toNat then
        if k < s.overrun newRows ∨ s.getActiveRows ≤ k then some .unset else s.storedRows[k]?
      else none := by
  have hring : Ring t := by
    obtain ⟨_, _, _, rfl⟩ := ht.arrays
    exact ⟨ht.lines, ht.colors, ht.flags, hs.first_lt, hs.rows_le⟩
  have hfields : t.mActiveTranscriptRows = s.mActiveTranscriptRows ∧
      t.mTotalRows = s.mTotalRows ∧ t.slotOfRow = s.slotOfRow := by
    obtain ⟨_, _, _, rfl⟩ := ht.arrays
    exact ⟨rfl, rfl, rfl⟩
  obtain ⟨hhistory, htotal, hslots⟩ := hfields
  have hlength : (shifted newRows (-(s.mActiveTranscriptRows : Int)) t).getActiveRows =
      newRows.toNat := by
    show ((t.mActiveTranscriptRows : Int) + -(s.mActiveTranscriptRows : Int)).toNat +
      newRows.toNat = newRows.toNat
    rw [hhistory]
    omega
  have hoverrun : s.overrun newRows =
      (newRows + 2 * s.mActiveTranscriptRows - s.mTotalRows).toNat := if_pos hbeyond
  have hactive : s.getActiveRows = s.mActiveTranscriptRows + s.mScreenRows := rfl
  have hle := hs.rows_le
  rw [getElem?_storedRows, hlength]
  by_cases hk : k < newRows.toNat
  · rw [if_pos hk, if_pos hk, slotOfRow_shifted hring (by omega) (by omega) (by omega), hslots,
      slot_shifted]
    have hcleared := cleared_slotOfRow hs (n := (s.mActiveTranscriptRows + newRows -
      s.mScreenRows).toNat) (show k < s.mTotalRows by omega)
    have hlt := slotOfRow_lt hs k
    have hlost : (s.getActiveRows ≤ k ∧ k < s.getActiveRows +
        (s.mActiveTranscriptRows + newRows - s.mScreenRows).toNat ∨
        k < s.getActiveRows ∧ k + s.mTotalRows < s.getActiveRows +
          (s.mActiveTranscriptRows + newRows - s.mScreenRows).toNat) ↔
        (k < s.overrun newRows ∨ s.getActiveRows ≤ k) := by
      clear hcleared
      omega
    rw [hlost] at hcleared
    by_cases hunset : k < s.overrun newRows ∨ s.getActiveRows ≤ k
    · rw [if_pos hunset, ht.unset _ (hcleared.mpr hunset) hlt]
    · rw [if_neg hunset, ht.kept _ fun h => hunset (hcleared.mp h), getElem?_storedRows,
        if_pos (by
          clear hcleared
          omega)]
  · rw [if_neg hk, if_neg hk]

/-- The rows after a shift that leaves them alone. -/
theorem storedRows_within (hs : Ring s) {newRows cursorRow shift : Int} (hrows : 1 ≤ newRows)
    (h : Shifts s newRows cursorRow shift) :
    (shifted newRows shift s).storedRows =
      s.storedRows.take (s.mActiveTranscriptRows + shift + newRows).toNat := by
  have hle := hs.rows_le
  have hactive : s.getActiveRows = s.mActiveTranscriptRows + s.mScreenRows := rfl
  have hlower := h.lower
  have hupper := h.upper
  have hlength : (shifted newRows shift s).getActiveRows =
      (s.mActiveTranscriptRows + shift + newRows).toNat := by
    show (s.mActiveTranscriptRows + shift).toNat + newRows.toNat = _
    omega
  apply List.ext_getElem?
  intro k
  rw [getElem?_storedRows, hlength, List.getElem?_take]
  by_cases hk : k < (s.mActiveTranscriptRows + shift + newRows).toNat
  · rw [if_pos hk, if_pos hk, slotOfRow_shifted hs hlower (by omega) hrows, slot_shifted,
      getElem?_storedRows, if_pos (by omega)]
  · rw [if_neg hk, if_neg hk]

/-- The rows behind the new screen. -/
theorem hidden_blank (hs : Ring s) {newRows cursorRow shift : Int}
    (h : Shifts s newRows cursorRow shift) {row : StoredRow}
    (hrow : row ∈ s.storedRows.drop (s.mActiveTranscriptRows + shift + newRows).toNat) :
    isBlankLine row.line = true := by
  have hactive : s.getActiveRows = s.mActiveTranscriptRows + s.mScreenRows := rfl
  have hlower := h.lower
  obtain ⟨k, hk⟩ := List.getElem?_of_mem hrow
  rw [List.getElem?_drop, getElem?_storedRows] at hk
  split_ifs at hk with hlt
  obtain rfl := Option.some.inj hk
  generalize hj : (s.mActiveTranscriptRows + shift + newRows).toNat + k = j at *
  have hrange : s.InRange ((j : Int) - s.mActiveTranscriptRows) := ⟨by omega, by omega⟩
  have hblank := h.blank ((j : Int) - s.mActiveTranscriptRows) (by omega) (by omega)
  rw [internalRow_eq hs hrange, Int.sub_add_cancel, Int.toNat_natCast, Int.toNat_natCast] at hblank
  exact hblank

/-- A resize that has no slots to clear keeps the rows. -/
theorem keepsRows_within (hs : Ring s) {newRows cursorRow : Int}
    (hrows : 1 ≤ newRows ∧ newRows ≤ s.mTotalRows)
    (hcursor : 0 ≤ cursorRow ∧ cursorRow < s.mScreenRows)
    (hwithin : ¬ s.getActiveRows < newRows) : s.KeepsRows newRows cursorRow := by
  obtain ⟨r, t, hresize, shift, u, ⟨rfl, hshifts⟩, rfl, rfl⟩ :=
    returns_iff.mp (resize_returns hrows.2 (resizeShift_within hs hcursor hwithin))
  have hlower := hshifts.lower
  have hupper := hshifts.upper
  have hactive : u.getActiveRows = u.mActiveTranscriptRows + u.mScreenRows := rfl
  have hhidden : (u.storedRows.drop
      (u.mActiveTranscriptRows + shift + newRows).toNat).length =
        (u.mScreenRows - newRows - shift).toNat := by
    rw [List.length_drop, length_storedRows]
    omega
  refine ⟨_, _, hresize, ⟨_, [], ?_, fun row hrow => hidden_blank hs hshifts hrow,
    fun hne => ?_, fun row hrow => absurd hrow (List.not_mem_nil), fun hne => absurd rfl hne⟩,
    ?_, ?_⟩
  · rw [storedRows_within hs hrows.1 hshifts, List.take_append_drop, List.append_nil]
  · have hpos := List.length_pos_iff.mpr hne
    rw [hhidden] at hpos ⊢
    have hsmaller := hshifts.shrinks (by omega)
    exact ⟨hsmaller.1, by omega⟩
  · show ((newRows.toNat : Nat) : Int) = newRows
    omega
  · show (((u.mActiveTranscriptRows + shift).toNat : Nat) : Int) + (cursorRow - shift) = _
    omega

/-- A resize that clears slots keeps the rows that it does not clear. -/
theorem keepsRows_beyond_iff (hs : Ring s) {newRows cursorRow : Int}
    (hrows : newRows ≤ s.mTotalRows) (hbeyond : s.getActiveRows < newRows) :
    s.KeepsRows newRows cursorRow ↔
      ∀ k < s.overrun newRows, k < s.getActiveRows → s.storedRows[k]? = some .unset := by
  have hreturns : returns (resizeShift newRows cursorRow) _ s := resizeShift_beyond hs hbeyond
  obtain ⟨r, t, hresize, shift, u, ⟨rfl, hcleared⟩, rfl, rfl⟩ :=
    returns_iff.mp (resize_returns hrows hreturns)
  have hstored := getElem?_storedRows_beyond hs hbeyond hrows hcleared
  have hactive : s.getActiveRows = s.mActiveTranscriptRows + s.mScreenRows := rfl
  constructor
  · rintro ⟨newCursorRow, t, hagain, ⟨hidden, exposed, hsame, _, hshrinks, _⟩, _⟩ k hk hlt
    rw [hresize] at hagain
    cases hagain
    obtain rfl : hidden = [] := by
      by_contra hne
      have := (hshrinks hne).1
      omega
    rw [List.append_nil] at hsame
    have hk' := hstored k
    rw [hsame, List.getElem?_append_left (by rw [length_storedRows]; exact hlt),
      if_pos (by omega), if_pos (Or.inl hk)] at hk'
    exact hk'
  · intro hunset
    refine ⟨_, _, hresize, ⟨[], List.replicate (newRows.toNat - s.getActiveRows) .unset, ?_,
      fun row hrow => absurd hrow (List.not_mem_nil), fun hne => absurd rfl hne,
      fun row hrow => List.eq_of_mem_replicate hrow, fun _ => by omega⟩, ?_, ?_⟩
    · rw [List.append_nil]
      apply List.ext_getElem?
      intro k
      rw [hstored]
      by_cases hold : k < s.getActiveRows
      · rw [List.getElem?_append_left (by rw [length_storedRows]; exact hold),
          if_pos (by omega)]
        by_cases hlost : k < s.overrun newRows
        · rw [if_pos (Or.inl hlost), hunset k hlost hold]
        · rw [if_neg (by omega)]
      · rw [List.getElem?_append_right (by rw [length_storedRows]; omega), length_storedRows,
          List.getElem?_replicate]
        by_cases hnew : k < newRows.toNat
        · rw [if_pos hnew, if_pos (Or.inr (by omega)), if_pos (by omega)]
        · rw [if_neg hnew, if_neg (by omega)]
    · show ((newRows.toNat : Nat) : Int) = newRows
      omega
    · obtain ⟨_, _, _, rfl⟩ := hcleared.arrays
      show (((s.mActiveTranscriptRows + -(s.mActiveTranscriptRows : Int)).toNat : Nat) : Int) +
        (cursorRow - -(s.mActiveTranscriptRows : Int)) = _
      omega

/-- **Resizing in place** keeps the rows if and only if the loop that clears slots comes
around to no row that was written to. -/
theorem resize_keeps_rows_iff (hs : Ring s) {newRows cursorRow : Int}
    (hrows : 1 ≤ newRows ∧ newRows ≤ s.mTotalRows)
    (hcursor : 0 ≤ cursorRow ∧ cursorRow < s.mScreenRows) :
    s.KeepsRows newRows cursorRow ↔
      ∀ row ∈ s.storedRows.take (s.overrun newRows), row = .unset := by
  by_cases hbeyond : (s.getActiveRows : Int) < newRows
  · rw [keepsRows_beyond_iff hs hrows.2 hbeyond]
    constructor
    · intro h row hrow
      obtain ⟨k, hk⟩ := List.getElem?_of_mem hrow
      rw [List.getElem?_take] at hk
      split_ifs at hk with hlost
      have hlt : k < s.storedRows.length := (List.getElem?_eq_some_iff.mp hk).1
      rw [h k hlost (by rw [← length_storedRows]; exact hlt)] at hk
      exact (Option.some.inj hk).symm
    · intro h k hlost hlt
      have hlt' : k < s.storedRows.length := by
        rw [length_storedRows]
        exact hlt
      rw [List.getElem?_eq_getElem hlt']
      refine congrArg some (h _ (List.mem_of_getElem? (i := k) ?_))
      rw [List.getElem?_take, if_pos hlost, List.getElem?_eq_getElem hlt']
  · have hnone : s.overrun newRows = 0 := if_neg hbeyond
    rw [hnone, List.take_zero]
    exact ⟨fun _ row hrow => absurd hrow (List.not_mem_nil),
      fun _ => keepsRows_within hs hrows hcursor hbeyond⟩

theorem ring_create {columns totalRows screenRows : Nat} {defaultStyle : Style}
    (hpos : 0 < totalRows) (hrows : screenRows ≤ totalRows) :
    Ring (create columns totalRows screenRows defaultStyle) where
  lines := List.length_replicate
  colors := List.length_replicate
  flags := List.length_replicate
  first_lt := hpos
  rows_le := (Nat.zero_add _).le.trans hrows

/-- Two lines on a screen of one row. -/
def writeTwoLines [Platform] : TranscriptM Unit := do
  setCharStyle 0 0 65 0
  scroll 0 1 0
  setCharStyle 0 0 66 0
  scroll 0 1 0

/-- A transcript of four rows, of which three are in use. -/
def twoLines : UnicodeTranscript :=
  letI := samplePlatform
  after writeTwoLines (create 1 4 1 0)

theorem ring_twoLines : Ring twoLines where
  lines := by decide +kernel
  colors := by decide +kernel
  flags := by decide +kernel
  first_lt := by decide +kernel
  rows_le := by decide +kernel

theorem resize_keeps_rows_iff_two_rows : twoLines.KeepsRows 2 0 :=
  (resize_keeps_rows_iff ring_twoLines (by decide +kernel) (by decide +kernel)).mpr
    (by decide +kernel)

theorem resize_erases_history : ¬ twoLines.KeepsRows 4 0 := by
  intro h
  have hunset := (keepsRows_beyond_iff ring_twoLines (by decide +kernel) (by decide +kernel)).mp h
  exact absurd (hunset 0 (by decide +kernel) (by decide +kernel)) (by decide +kernel)

end Kbox.Emulatorview.UnicodeTranscript
