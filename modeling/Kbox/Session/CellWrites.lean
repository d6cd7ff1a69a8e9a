import Kbox.Framework.ArrayEdits
import Kbox.Framework.Keeps
import Kbox.Session.ScreenRefinement

/-!
# Writes to the cells of the screen

The methods of the screen never look at a cell, they only store and copy.  What
they store is a character and two colours, packed by `encode`; a cell that was
never stored into holds 0, and no such cell is ever in one of the active rows.
-/

namespace Kbox.Session

open Kbox.Framework

/-! ## §1  What a cell holds -/

/-- A character with the colours it is written in. -/
structure Written where
  char : Nat
  foreColor : Nat
  backColor : Nat
deriving DecidableEq, Repr

namespace Written

def code (w : Written) : JChar :=
  TranscriptScreen.encode w.char w.foreColor w.backColor

/-- A character of the low byte and two colours of four bits. -/
structure Proper (w : Written) : Prop where
  char : 32 ≤ w.char ∧ w.char ≤ 127
  foreColor : w.foreColor ≤ 15
  backColor : w.backColor ≤ 15

theorem toNat_code {w : Written} (h : w.Proper) :
    w.code.toNat = w.foreColor * 4096 + w.backColor * 256 + w.char := by
  obtain ⟨c, f, b⟩ := w
  obtain ⟨⟨_, hc⟩, hf, hb⟩ := h
  have hlow : b <<< 8 + c = b <<< 8 ||| c :=
    Nat.shiftLeft_add_eq_or_of_lt (show c < 2 ^ 8 by simp only at hc; omega) b
  have hhigh : f <<< 12 + (b <<< 8 + c) = f <<< 12 ||| (b <<< 8 + c) :=
    Nat.shiftLeft_add_eq_or_of_lt
      (show b <<< 8 + c < 2 ^ 12 by simp only [Nat.shiftLeft_eq] at hc hb ⊢; omega) f
  have hsum : f <<< 12 ||| b <<< 8 ||| c = f * 4096 + b * 256 + c := by
    rw [Nat.or_assoc, ← hlow, ← hhigh, Nat.shiftLeft_eq, Nat.shiftLeft_eq]
    omega
  simp only [code, TranscriptScreen.encode, BitVec.toNat_setWidth, BitVec.toNat_or,
    BitVec.toNat_shiftLeft, BitVec.toNat_ofNat, BitVec.ofInt_natCast]
  simp only at hc hf hb
  rw [Nat.mod_eq_of_lt (show f < 2 ^ 32 by omega), Nat.mod_eq_of_lt (show b < 2 ^ 32 by omega),
    Nat.mod_eq_of_lt (show c < 2 ^ 32 by omega),
    Nat.mod_eq_of_lt (show f <<< 12 < 2 ^ 32 by rw [Nat.shiftLeft_eq]; omega),
    Nat.mod_eq_of_lt (show b <<< 8 < 2 ^ 32 by rw [Nat.shiftLeft_eq]; omega), hsum]
  omega

/-- The low byte of the cell is the character, and the two halves of the high byte the colours. -/
theorem split_code {w : Written} (h : w.Proper) :
    w.code.toNat % 256 = w.char ∧ w.code.toNat / 4096 = w.foreColor ∧
      w.code.toNat / 256 % 16 = w.backColor := by
  have hchar := h.char
  have hback := h.backColor
  rw [toNat_code h]
  omega

end Written

/-- The low byte of the cell is a character that is printed. -/
def Legible (c : JChar) : Prop := 32 ≤ c.toNat % 256 ∧ c.toNat % 256 ≤ 127

theorem Written.legible_code {w : Written} (h : w.Proper) : Legible w.code := by
  unfold Legible
  rw [(split_code h).1]
  exact h.char

/-- A cell that was never stored into. -/
theorem not_legible_zero : ¬ Legible 0 := by
  unfold Legible
  decide

namespace TranscriptScreen

/-! ## §2  The screen does not look at its cells -/

/-- The cells among the fields of the screen. -/
def cellsField : ArrayField TranscriptScreen JChar where
  read s := s.mData
  write d s := { s with mData := d }
  read_write _ _ := rfl
  write_read _ := rfl
  write_write _ _ _ := rfl

section Oblivious

variable {A : Written → Prop} {s : TranscriptScreen}

theorem oblivious_externalToInternalRow (row : Int) :
    Oblivious cellsField Written.code A (fun _ => True) (externalToInternalRow row) s := by
  refine oblivious_get_bind ?_ fun _ _ => rfl
  refine (oblivious_throwIf trivial).then fun t _ _ => ?_
  exact oblivious_ite (fun _ => oblivious_pure _ trivial) fun _ => oblivious_pure _ trivial

theorem oblivious_getOffset (row : Int) :
    Oblivious cellsField Written.code A (fun _ => True) (getOffset row) s :=
  oblivious_get_bind ((oblivious_externalToInternalRow row).bind
    fun _ _ _ _ => oblivious_pure _ trivial) fun _ _ => rfl

/-- A new value for `mLineWrap`, if it can be computed. -/
theorem oblivious_setFlags (f : TranscriptScreen → Except Exn (List Bool))
    (hf : ∀ d, f (cellsField.write d s) = f s) :
    Oblivious cellsField Written.code A (fun _ => True) (do
      let s ← get
      let flags ← checked (f s)
      MonadStateOf.set { s with mLineWrap := flags }) s := by
  cases hflags : f s with
  | ok flags =>
      refine @oblivious_frame _ _ _ _ _ _ _ _ _ _ _ (.ok ⟨⟩) { s with mLineWrap := flags } trivial
        rfl fun d _ => ?_
      have hd := hf d
      rw [hflags] at hd
      simp only [bind, EStateM.bind, get_apply, hd]
      rfl
  | error e =>
      refine @oblivious_frame _ _ _ _ _ _ _ _ _ _ _ (.error e) s trivial rfl fun d _ => ?_
      have hd := hf d
      rw [hflags] at hd
      simp only [bind, EStateM.bind, get_apply, hd]
      rfl

theorem oblivious_setLineWrap (row : Int) :
    Oblivious cellsField Written.code A (fun _ => True) (setLineWrap row) s :=
  (oblivious_externalToInternalRow row).bind fun r _ _ _ =>
    oblivious_setFlags (fun s => arraySet _ s.mLineWrap r true) fun _ => rfl

theorem oblivious_copyLineWrap (src dst len : Int) :
    Oblivious cellsField Written.code A (fun _ => True) (copyLineWrap src dst len) s :=
  oblivious_setFlags (fun s => arraycopy _ s.mLineWrap src s.mLineWrap dst len) fun _ => rfl

theorem oblivious_storeChar (i : Int) {w : Written} (hw : A w) :
    Oblivious cellsField Written.code A (fun _ => True) (storeChar i w.code) s := by
  by_cases hout : i < 0 ∨ (s.mData.length : Int) ≤ i
  · refine @oblivious_frame _ _ _ _ _ _ _ _ _ _ _ (.error (.arrayIndexOutOfBounds .mData)) s
      trivial rfl fun d hd => ?_
    have hd' : d.length = s.mData.length := hd
    have hset : arraySet (Exn.arrayIndexOutOfBounds .mData) d i w.code =
        .error (.arrayIndexOutOfBounds .mData) := by
      unfold arraySet
      rw [hd', if_pos hout]
    simp only [storeChar, bind, EStateM.bind, get_apply, cellsField, hset]
    rfl
  · refine @oblivious_edit _ _ _ _ _ _ _ _ _ _ _ (.ok ⟨⟩) (.store i.toNat w) trivial
      (show i.toNat < s.mData.length by omega) hw fun d hd => ?_
    have hd' : d.length = s.mData.length := hd
    have hset : arraySet (Exn.arrayIndexOutOfBounds .mData) d i w.code =
        .ok (d.set i.toNat w.code) := by
      unfold arraySet
      rw [hd', if_neg hout]
    simp only [storeChar, bind, EStateM.bind, get_apply, cellsField, hset]
    rfl

theorem oblivious_copyData (src dst len : Int) :
    Oblivious cellsField Written.code A (fun _ => True) (copyData src dst len) s := by
  by_cases hout : src < 0 ∨ dst < 0 ∨ len < 0 ∨ (s.mData.length : Int) < src + len ∨
      (s.mData.length : Int) < dst + len
  · refine @oblivious_frame _ _ _ _ _ _ _ _ _ _ _ (.error (.arrayIndexOutOfBounds .mData)) s
      trivial rfl fun d hd => ?_
    have hd' : d.length = s.mData.length := hd
    have hcopy : arraycopy (Exn.arrayIndexOutOfBounds .mData) d src d dst len =
        .error (.arrayIndexOutOfBounds .mData) := by
      unfold arraycopy
      rw [hd', if_pos hout]
    simp only [copyData, bind, EStateM.bind, get_apply, cellsField, hcopy]
    rfl
  · refine @oblivious_edit _ _ _ _ _ _ _ _ _ _ _ (.ok ⟨⟩) (.copy src.toNat dst.toNat len.toNat)
      trivial
      (show src.toNat + len.toNat ≤ s.mData.length ∧ dst.toNat + len.toNat ≤ s.mData.length by
        omega) trivial fun d hd => ?_
    have hd' : d.length = s.mData.length := hd
    have hcopy : arraycopy (Exn.arrayIndexOutOfBounds .mData) d src d dst len =
        .ok (splice d dst.toNat (stretch d src.toNat len.toNat)) := by
      unfold arraycopy
      rw [hd', if_neg hout]
      rfl
    simp only [copyData, bind, EStateM.bind, get_apply, cellsField, hcopy]
    rfl

theorem oblivious_consistencyCheck :
    Oblivious cellsField Written.code A (fun _ => True) consistencyCheck s := by
  have hcheck {c : Prop} [Decidable c] {e : Exn} {t : TranscriptScreen} :
      Oblivious cellsField Written.code A (fun _ => True) (throwIf c e) t :=
    oblivious_throwIf trivial
  refine oblivious_get_bind ?_ fun d hd => ?_
  · refine hcheck.then fun _ _ _ => hcheck.then fun _ _ _ => hcheck.then fun _ _ _ => ?_
    have hrest (t : TranscriptScreen) :
        Oblivious cellsField Written.code A (fun _ => True) (do
          checkEqual (iadd s.mScreenRows s.mActiveTranscriptRows) s.mActiveRows
          checkRange 0 s.mScreenRows s.mTotalRows
          checkEqual s.mTotalRows s.mLineWrap.length
          checkEqual (imul s.mTotalRows s.mColumns) s.mData.length
          checkEqual s.mColumns s.mRowBuffer.length) t :=
      hcheck.then fun _ _ _ => hcheck.then fun _ _ _ => hcheck.then fun _ _ _ =>
        hcheck.then fun _ _ _ => hcheck
    exact oblivious_ite (fun _ => hcheck.then fun _ _ _ => hrest _)
      fun _ => hcheck.then fun _ _ _ => hrest _
  · have hd' : d.length = s.mData.length := hd
    simp only [cellsField, hd']

theorem oblivious_fillRun (offset w : Int) {v : Written} (hv : A v) :
    Oblivious cellsField Written.code A (fun _ => True) (fillRun offset w v.code) s :=
  oblivious_repeatFor trivial fun _ _ _ _ => oblivious_storeChar _ hv

theorem oblivious_blockSet (sx sy w h : Int) {v : Written} (hv : A v) :
    Oblivious cellsField Written.code A (fun _ => True)
      (blockSet sx sy w h v.char v.foreColor v.backColor) s := by
  refine oblivious_get_bind ?_ fun _ _ => rfl
  refine (oblivious_throwIf trivial).then fun t _ _ => ?_
  exact oblivious_repeatFor trivial fun _ _ _ _ =>
    (oblivious_getOffset _).bind fun _ _ _ _ => oblivious_fillRun _ _ hv

theorem oblivious_set (x y : Int) {v : Written} (hv : A v) :
    Oblivious cellsField Written.code A (fun _ => True)
      (set x y v.char v.foreColor v.backColor) s :=
  (oblivious_getOffset y).bind fun _ _ _ _ => oblivious_storeChar _ hv

theorem oblivious_blockCopy (sx sy w h dx dy : Int) :
    Oblivious cellsField Written.code A (fun _ => True) (blockCopy sx sy w h dx dy) s := by
  have hrow (y : Nat) (t : TranscriptScreen) :
      Oblivious cellsField Written.code A (fun _ => True) (copyRow sx sy w dx dy y) t :=
    (oblivious_getOffset _).bind fun _ _ _ _ => (oblivious_getOffset _).bind
      fun _ _ _ _ => oblivious_copyData _ _ _
  refine oblivious_get_bind ?_ fun _ _ => rfl
  refine (oblivious_throwIf trivial).then fun t _ _ => ?_
  exact oblivious_ite (fun _ => oblivious_repeatFor trivial fun _ _ _ _ => hrow _ _)
    fun _ => oblivious_repeatFor trivial fun _ _ _ _ => hrow _ _

theorem oblivious_rollTranscript :
    Oblivious cellsField Written.code A (fun _ => True) rollTranscript s := by
  refine oblivious_get_bind ?_ fun _ _ => rfl
  refine Oblivious.then (oblivious_modify trivial fun _ => rfl) fun t _ _ => ?_
  refine oblivious_get_bind ?_ fun _ _ => rfl
  exact oblivious_ite (fun _ => oblivious_modify trivial fun _ => rfl)
    fun _ => oblivious_pure _ trivial

theorem oblivious_scroll (top bottom : Int) {f b : Nat} (hv : A ⟨32, f, b⟩) :
    Oblivious cellsField Written.code A (fun _ => True) (scroll top bottom f b) s := by
  have hlines (t : TranscriptScreen) :
      Oblivious cellsField Written.code A (fun _ => True) (scrollLines top bottom f b) t := by
    refine oblivious_get_bind ?_ fun _ _ => rfl
    refine (oblivious_getOffset _).bind fun _ _ _ _ => ?_
    refine (oblivious_getOffset _).bind fun _ _ _ _ => ?_
    refine (oblivious_copyData _ _ _).then fun _ _ _ => ?_
    refine (oblivious_externalToInternalRow _).bind fun _ _ _ _ => ?_
    refine (oblivious_externalToInternalRow _).bind fun _ _ _ _ => ?_
    refine (oblivious_copyLineWrap _ _ _).then fun _ _ _ => ?_
    refine (oblivious_copyData _ _ _).then fun _ _ _ => ?_
    refine (oblivious_copyLineWrap _ _ _).then fun _ _ _ => ?_
    refine (oblivious_blockSet _ _ _ _ hv).then fun _ _ _ => ?_
    refine (oblivious_externalToInternalRow _).bind fun last _ _ _ => ?_
    exact oblivious_setFlags (fun s => arraySet _ s.mLineWrap last false) fun _ => rfl
  refine oblivious_get_bind ?_ fun _ _ => rfl
  refine (oblivious_throwIf trivial).then fun _ _ _ => ?_
  refine (oblivious_throwIf trivial).then fun _ _ _ => ?_
  refine (oblivious_throwIf trivial).then fun _ _ _ => ?_
  refine oblivious_consistencyCheck.then fun _ _ _ => ?_
  refine oblivious_rollTranscript.then fun _ _ _ => ?_
  exact oblivious_consistencyCheck.then fun _ _ _ => hlines _

end Oblivious

/-! ## §3  The active rows -/

/-- The sizes agree; the screen may take up all rows. -/
structure Sized (s : TranscriptScreen) : Prop where
  columns_pos : 0 < s.mColumns
  screen_le : s.mScreenRows ≤ s.mTotalRows
  size_isInt : (s.mColumns : Int) * s.mTotalRows ≤ intMax
  rows_isInt : 2 * (s.mTotalRows : Int) ≤ intMax
  data_length : s.mData.length = s.mTotalRows * s.mColumns
  active_le : s.mActiveTranscriptRows ≤ s.mTotalRows - s.mScreenRows
  activeRows : s.mActiveRows = s.mScreenRows + s.mActiveTranscriptRows
  head_filling : s.mActiveTranscriptRows < s.mTotalRows - s.mScreenRows → s.mHead = 0
  head_lt : 0 < s.mActiveTranscriptRows → s.mHead < s.mActiveTranscriptRows
  flags_length : s.mLineWrap.length = s.mTotalRows
  buffer_length : s.mRowBuffer.length = s.mColumns

theorem Sized.wellFormed {s : TranscriptScreen} (h : Sized s)
    (hlt : s.mScreenRows < s.mTotalRows) : WellFormed s :=
  { h with screen_lt := hlt }

theorem WellFormed.sized {s : TranscriptScreen} (h : WellFormed s) : Sized s :=
  { h with screen_le := Nat.le_of_lt h.screen_lt }

theorem Sized.length_isInt {s : TranscriptScreen} (h : Sized s) :
    (s.mData.length : Int) ≤ intMax := by
  have hsize := h.size_isInt
  rw [h.data_length]
  push_cast
  rw [Int.mul_comm]
  exact hsize

/-- Every cell of an active row holds a character. -/
def Inked (s : TranscriptScreen) : Prop :=
  ∀ (row : Int) (r : Nat), Locates s row r → ∀ x < s.mColumns, ∀ c, s.cellAt r x = some c → Legible c

/-- What the methods keep. -/
structure Active (s : TranscriptScreen) : Prop where
  sized : Sized s
  inked : Inked s

theorem inked_iff {s : TranscriptScreen} :
    Inked s ↔ ∀ row ∈ s.toBuffer.rows, ∀ c ∈ row.cells, Legible c := by
  constructor
  · intro h
    have hrow (row : Int) (r : Nat) (hr : Locates s row r) : ∀ c ∈ (s.rowAt r).cells, Legible c := by
      intro c hc
      obtain ⟨x, hx⟩ := List.mem_iff_getElem?.mp hc
      rw [getElem?_cells_rowAt] at hx
      by_cases hlt : x < s.mColumns
      · rw [if_pos hlt] at hx
        exact h row r hr x hlt c hx
      · rw [if_neg hlt] at hx
        cases hx
    intro row hmem
    simp only [ScrollBuffer.rows, toBuffer, List.mem_append, List.mem_map, List.mem_range] at hmem
    rcases hmem with ⟨i, hi, rfl⟩ | ⟨y, hy, rfl⟩
    · exact hrow _ _ (.inr ⟨i, hi, rfl, rfl⟩)
    · exact hrow _ _ (locates_screen hy)
  · intro h row r hr x hx c hc
    have hmem : s.rowAt r ∈ s.toBuffer.rows := by
      simp only [ScrollBuffer.rows, toBuffer, List.mem_append, List.mem_map, List.mem_range]
      rcases hr with ⟨_, hlt⟩ | ⟨i, hi, _, rfl⟩
      · exact .inr ⟨r, hlt, rfl⟩
      · exact .inl ⟨i, hi, rfl⟩
    refine h _ hmem c (List.mem_of_getElem? (i := x) ?_)
    rw [getElem?_cells_rowAt, if_pos hx]
    exact hc

/-- Whatever is put into the array is legible, or was there before. -/
theorem Active.rewrite {s : TranscriptScreen} (h : Active s) {d : List JChar}
    (hlength : d.length = s.mData.length)
    (hd : ∀ (i : Nat) (c : JChar), d[i]? = some c → Legible c ∨ s.mData[i]? = some c) :
    Active { s with mData := d } := by
  refine ⟨{ h.sized with data_length := hlength.trans h.sized.data_length }, ?_⟩
  intro row r hr x hx c hc
  rcases hd _ c hc with hlegible | hold
  · exact hlegible
  · exact h.inked row r hr x hx c hold

/-- The cells of the screen rows, by their index in the array. -/
theorem Active.screen_cell {s : TranscriptScreen} (h : Active s) {i : Nat} {c : JChar}
    (hi : i < s.mScreenRows * s.mColumns) (hc : s.mData[i]? = some c) : Legible c := by
  have hrow : i / s.mColumns < s.mScreenRows := Nat.div_lt_of_lt_mul (by rwa [Nat.mul_comm])
  have hcol : i % s.mColumns < s.mColumns := Nat.mod_lt _ h.sized.columns_pos
  refine h.inked _ _ (locates_screen hrow) _ hcol c ?_
  unfold cellAt
  rw [Nat.mul_comm, Nat.div_add_mod]
  exact hc

/-! ## §4  What the methods keep -/

theorem keeps_storeChar (i : Int) {c : JChar} (hc : Legible c) : Keeps Active (storeChar i c) := by
  apply keeps_read
  intro s h
  rw [wp_bind, wp_checked]
  refine ⟨fun d hd => ?_, fun _ _ => h⟩
  rw [wp_set]
  refine h.rewrite (length_of_arraySet hd) fun j c' hj => ?_
  unfold arraySet at hd
  by_cases hout : i < 0 ∨ (s.mData.length : Int) ≤ i
  · rw [if_pos hout] at hd
    cases hd
  · rw [if_neg hout] at hd
    cases hd
    rw [List.getElem?_set] at hj
    split_ifs at hj
    · cases hj
      exact .inl hc
    · exact .inr hj

theorem keeps_setFlags {f : TranscriptScreen → Except Exn (List Bool)}
    (hf : ∀ s flags, f s = .ok flags → flags.length = s.mLineWrap.length) :
    Keeps Active (do
      let s ← get
      let flags ← checked (f s)
      MonadStateOf.set { s with mLineWrap := flags }) := by
  apply keeps_read
  intro s h
  rw [wp_bind, wp_checked]
  refine ⟨fun flags hflags => ?_, fun _ _ => h⟩
  rw [wp_set]
  exact ⟨{ h.sized with flags_length := (hf s flags hflags).trans h.sized.flags_length }, h.inked⟩

theorem keeps_externalToInternalRow {I : TranscriptScreen → Prop} (row : Int) :
    Keeps I (externalToInternalRow row) :=
  keeps_get_bind fun _ => keeps_throwIf.then
    (keeps_ite (fun _ => keeps_pure _) fun _ => keeps_pure _)

theorem keeps_getOffset {I : TranscriptScreen → Prop} (row : Int) : Keeps I (getOffset row) :=
  keeps_get_bind fun _ => (keeps_externalToInternalRow row).bind fun _ => keeps_pure _

theorem keeps_setLineWrap (row : Int) : Keeps Active (setLineWrap row) :=
  (keeps_externalToInternalRow row).bind fun _ =>
    keeps_setFlags fun _ _ hflags => length_of_arraySet hflags

theorem keeps_set (x y : Int) {w : Written} (hw : w.Proper) :
    Keeps Active (set x y w.char w.foreColor w.backColor) :=
  (keeps_getOffset y).bind fun _ => keeps_storeChar _ (Written.legible_code hw)

theorem keeps_blockSet (sx sy w h : Int) {v : Written} (hv : v.Proper) :
    Keeps Active (blockSet sx sy w h v.char v.foreColor v.backColor) :=
  keeps_get_bind fun _ => keeps_throwIf.then (keeps_repeatFor fun _ =>
    (keeps_getOffset _).bind fun _ => keeps_repeatFor fun _ =>
      keeps_storeChar _ (Written.legible_code hv))

/-- The array index of the start of a row that is not in the history. -/
theorem wp_getOffset {s : TranscriptScreen}
    (hs : ((s.mScreenRows * s.mColumns : Nat) : Int) ≤ intMax) {row : Int} (hrow : 0 ≤ row) :
    wp (getOffset row) (fun offset t => t = s ∧ row < s.mScreenRows ∧ offset = row * s.mColumns)
      (fun _ t => t = s) s := by
  unfold getOffset externalToInternalRow
  simp only [wp_bind, wp_get, wp_throwIf, wp_ite, wp_pure]
  refine ⟨fun _ => trivial, fun hin => ⟨fun _ => ⟨trivial, by omega, ?_⟩, fun h => by omega⟩⟩
  obtain ⟨r, rfl⟩ := Int.eq_ofNat_of_zero_le hrow
  have hproduct : r * s.mColumns ≤ s.mScreenRows * s.mColumns := Nat.mul_le_mul_right _ (by omega)
  exact (imul_natCast hproduct hs).trans (by push_cast; rfl)

theorem Sized.screen_isInt {s : TranscriptScreen} (h : Sized s) :
    ((s.mScreenRows * s.mColumns : Nat) : Int) ≤ intMax := by
  have hmul := Nat.mul_le_mul_right s.mColumns h.screen_le
  have hmax := h.length_isInt
  rw [h.data_length] at hmax
  omega

/-- A copy whose source, if it is in the array at all, lies in the screen rows. -/
theorem wp_copyData {s : TranscriptScreen} (h : Active s) {src dst len : Int}
    (hsource : 0 ≤ src → 0 ≤ len → src + len ≤ s.mData.length →
      src + len ≤ s.mScreenRows * s.mColumns) :
    wp (copyData src dst len) (fun _ t => Active t ∧ t.mColumns = s.mColumns)
      (fun _ t => Active t ∧ t.mColumns = s.mColumns) s := by
  unfold copyData
  rw [wp_bind, wp_get, wp_bind, wp_checked]
  refine ⟨fun d hd => ?_, fun _ _ => ⟨h, rfl⟩⟩
  rw [wp_set]
  refine ⟨h.rewrite (arraycopy_spec hd).1 fun i c hi => ?_, rfl⟩
  unfold arraycopy at hd
  split_ifs at hd with hout
  cases hd
  have hin := hsource (by omega) (by omega) (by omega)
  rw [← stretch, getElem?_splice_stretch (by omega) (by omega)] at hi
  split_ifs at hi with hcopied
  · refine .inl (h.screen_cell ?_ hi)
    have hcast : ((s.mScreenRows * s.mColumns : Nat) : Int) = s.mScreenRows * s.mColumns := by
      push_cast
      rfl
    omega
  · exact .inr hi

/-- The source of a copied row lies in the screen: where the sum of the offsets wraps, so does the
one that is checked. -/
theorem keeps_blockCopy (sx sy w h dx dy : Int) :
    Keeps Active (blockCopy sx sy w h dx dy) := by
  apply keeps_read
  intro s hs
  rw [wp_bind, wp_throwIf]
  refine ⟨fun _ => hs, fun hin => ?_⟩
  have hrow (y : Nat) : Keeps (fun t => Active t ∧ t.mColumns = s.mColumns)
      (copyRow sx sy w dx dy y) := by
    rintro t ⟨ht, hcolumns⟩
    unfold copyRow
    rw [wp_bind]
    refine wp_mono (wp_getOffset ht.sized.screen_isInt (show 0 ≤ sy + y by omega)) ?_
      fun _ u hu => hu ▸ ⟨ht, hcolumns⟩
    rintro offset u ⟨rfl, hlt, rfl⟩
    rw [wp_bind]
    refine wp_mono (keeps_getOffset (dy + y) u (show u = u from rfl)) ?_
      fun _ v hv => hv ▸ ⟨ht, hcolumns⟩
    rintro dst _ rfl
    refine wp_mono (wp_copyData ht fun hsrc hw hlen => ?_)
      (fun _ v hv => ⟨hv.1, hv.2.trans hcolumns⟩) fun _ v hv => ⟨hv.1, hv.2.trans hcolumns⟩
    have hbelow : (sy + y) * u.mColumns + u.mColumns ≤ u.mScreenRows * u.mColumns := by
      have hmul := Int.mul_le_mul_of_nonneg_right (show sy + y + 1 ≤ (u.mScreenRows : Int) by omega)
        (Int.natCast_nonneg u.mColumns)
      rw [Int.add_mul] at hmul
      omega
    have hnonneg : 0 ≤ (sy + y) * (u.mColumns : Int) :=
      Int.mul_nonneg (by omega) (Int.natCast_nonneg _)
    have hscreen : (u.mScreenRows : Int) * u.mColumns ≤ u.mData.length := by
      have hmul := Nat.mul_le_mul_right u.mColumns ht.sized.screen_le
      rw [← ht.sized.data_length] at hmul
      exact_mod_cast hmul
    have hmax := ht.sized.length_isInt
    unfold iadd wrap32 at hin hsrc hlen ⊢
    unfold intMax at hmax
    omega
  have hloop (body : Nat → ScreenM Unit)
      (hbody : ∀ y, Keeps (fun t => Active t ∧ t.mColumns = s.mColumns) (body y)) :
      wp (repeatFor h.toNat body) (fun _ => Active) (fun _ => Active) s :=
    wp_mono (keeps_repeatFor hbody s ⟨hs, rfl⟩) (fun _ _ ht => ht.1) fun _ _ ht => ht.1
  exact (wp_ite _ _ _ _ _).mpr ⟨fun _ => hloop _ hrow, fun _ => hloop _ fun y => hrow _⟩

theorem keeps_consistencyCheck {I : TranscriptScreen → Prop} : Keeps I consistencyCheck := by
  refine keeps_get_bind fun s => ?_
  have hrest : Keeps I (do
      checkEqual (iadd s.mScreenRows s.mActiveTranscriptRows) s.mActiveRows
      checkRange 0 s.mScreenRows s.mTotalRows
      checkEqual s.mTotalRows s.mLineWrap.length
      checkEqual (imul s.mTotalRows s.mColumns) s.mData.length
      checkEqual s.mColumns s.mRowBuffer.length) :=
    keeps_throwIf.then (keeps_throwIf.then (keeps_throwIf.then (keeps_throwIf.then keeps_throwIf)))
  refine keeps_throwIf.then (keeps_throwIf.then (keeps_throwIf.then ?_))
  exact keeps_ite (fun _ => keeps_throwIf.then hrest) fun _ => keeps_throwIf.then hrest

/-- A screen without room for a transcript does not scroll. -/
theorem scroll_without_transcript {s : TranscriptScreen} (hs : Sized s)
    (hfull : s.mScreenRows = s.mTotalRows) (top bottom : Int) (f b : Nat) :
    wp (scroll top bottom f b) (fun _ t => t = s) (fun _ t => t = s) s := by
  have hactive := hs.active_le
  have hrows := hs.activeRows
  have hroll : wp rollTranscript (fun _ t => t = s) (fun _ t => t = s) s := by
    unfold rollTranscript
    simp only [wp_bind, wp_get, wp_modify, wp_ite, wp_pure]
    have hnone : min 1 ((s.mTotalRows : Int) - s.mActiveRows) = 0 := by omega
    have hsame : s.mActiveTranscriptRows = 0 := by omega
    simp only [hnone, Int.add_zero, Int.toNat_natCast, hsame]
    refine ⟨fun hpos => absurd hpos (by omega), fun _ => ?_⟩
    rw [← hsame]
  have hlines : wp (scrollLines top bottom f b) (fun _ t => t = s) (fun _ t => t = s) s := by
    unfold scrollLines
    rw [wp_bind, wp_get, wp_bind]
    refine wp_mono (keeps_getOffset top s (show s = s from rfl)) ?_ fun _ _ h => h.symm
    rintro _ _ rfl
    unfold getOffset externalToInternalRow
    simp only [wp_bind, wp_get, wp_throwIf]
    exact ⟨fun _ => trivial, fun hin => absurd (Or.inl (by omega)) hin⟩
  unfold scroll
  rw [wp_bind, wp_get, wp_bind, wp_throwIf]
  refine ⟨fun _ => rfl, fun _ => ?_⟩
  rw [wp_bind, wp_throwIf]
  refine ⟨fun _ => rfl, fun _ => ?_⟩
  rw [wp_bind, wp_throwIf]
  refine ⟨fun _ => rfl, fun _ => ?_⟩
  rw [wp_bind]
  refine wp_mono (keeps_consistencyCheck s (show s = s from rfl)) ?_ fun _ _ h => h.symm
  rintro _ _ rfl
  rw [wp_bind]
  refine wp_mono hroll ?_ fun _ _ h => h
  rintro _ _ rfl
  rw [wp_bind]
  refine wp_mono (keeps_consistencyCheck _ rfl) ?_ fun _ _ h => h.symm
  rintro _ _ rfl
  exact hlines

/-- The rows of a scrolled buffer are rows it had, and a blank one. -/
theorem mem_rows_scroll {b : ScrollBuffer JChar} {top bottom : Nat} {v : JChar} {row : Row JChar}
    (h : row ∈ (b.scroll top bottom v).rows) :
    row ∈ b.rows ∨ row = ⟨List.replicate b.columns v, false⟩ := by
  simp only [ScrollBuffer.rows, ScrollBuffer.scroll, List.mem_append, List.mem_singleton] at h ⊢
  rcases h with h | ((h | h) | h) | h
  · rcases List.mem_append.mp (List.mem_of_mem_drop h) with h | h
    · exact .inl (.inl h)
    · exact .inl (.inr (List.mem_of_mem_drop (List.mem_of_mem_take h)))
  · exact .inl (.inr (List.mem_of_mem_take h))
  · exact .inl (.inr (List.mem_of_mem_take (List.mem_of_mem_drop h)))
  · exact .inr h
  · exact .inl (.inr (List.mem_of_mem_drop h))

-- Above the margins of the guards nothing happens; below them the screen is the buffer's.
theorem keeps_scroll {top : Int} (htop : 0 ≤ top) (bottom : Int) {f b : Nat}
    (hv : Written.Proper ⟨32, f, b⟩) : Keeps Active (scroll top bottom f b) := by
  intro s hs
  by_cases hroom : s.mScreenRows < s.mTotalRows
  · by_cases hmargins : top < bottom ∧ bottom ≤ s.mScreenRows
    · obtain ⟨y, rfl⟩ := Int.eq_ofNat_of_zero_le htop
      obtain ⟨z, rfl⟩ := Int.eq_ofNat_of_zero_le (show 0 ≤ bottom by omega)
      refine wp_of_returns (scroll_toBuffer (hs.sized.wellFormed hroom) f b (by omega) (by omega)) ?_
      rintro _ t ⟨hwell, hbuffer⟩
      refine ⟨hwell.sized, inked_iff.mpr fun row hmem c hc => ?_⟩
      rw [hbuffer] at hmem
      rcases mem_rows_scroll hmem with hold | rfl
      · exact inked_iff.mp hs.inked row hold c hc
      · have hblank : c = Written.code ⟨32, f, b⟩ := List.eq_of_mem_replicate hc
        rw [hblank]
        exact Written.legible_code hv
    · unfold scroll
      rw [wp_bind, wp_get, wp_bind, wp_throwIf]
      refine ⟨fun _ => hs, fun h1 => ?_⟩
      rw [wp_bind, wp_throwIf]
      refine ⟨fun _ => hs, fun h2 => ?_⟩
      rw [wp_bind, wp_throwIf]
      exact ⟨fun _ => hs, fun h3 => absurd ⟨by omega, by omega⟩ hmargins⟩
  · have hfull : s.mScreenRows = s.mTotalRows := by
      have hle := hs.sized.screen_le
      omega
    exact wp_mono (scroll_without_transcript hs.sized hfull top bottom f b)
      (fun _ _ ht => ht ▸ hs) fun _ _ ht => ht ▸ hs

/-! ## §5  A screen that was just allocated -/

/-- Sizes of a screen whose array can be allocated. -/
structure Storable (columns totalRows screenRows : Nat) : Prop where
  columns_pos : 0 < columns
  screen_le : screenRows ≤ totalRows
  size_isInt : (columns : Int) * totalRows ≤ intMax
  rows_isInt : 2 * (totalRows : Int) ≤ intMax

/-- The cells behind `init`: blank rows on the screen, and the rest of the array. -/
def freshCells {κ : Type} (columns totalRows screenRows : Nat) (blank none : κ) : List κ :=
  List.replicate (screenRows * columns) blank ++
    List.replicate ((totalRows - screenRows) * columns) none

theorem getElem?_freshCells {κ : Type} {columns totalRows screenRows : Nat} (blank none : κ)
    (hle : screenRows ≤ totalRows) {i : Nat} (hi : i < totalRows * columns) :
    (freshCells columns totalRows screenRows blank none)[i]? =
      if i < screenRows * columns then some blank else some none := by
  have hmul := Nat.mul_le_mul_right columns hle
  unfold freshCells
  rw [List.getElem?_append, List.length_replicate, List.getElem?_replicate,
    List.getElem?_replicate, Nat.sub_mul]
  split_ifs <;> first | rfl | omega

theorem length_freshCells {κ : Type} {columns totalRows screenRows : Nat} (blank none : κ)
    (hle : screenRows ≤ totalRows) :
    (freshCells columns totalRows screenRows blank none).length = totalRows * columns := by
  have hmul := Nat.mul_le_mul_right columns hle
  unfold freshCells
  rw [List.length_append, List.length_replicate, List.length_replicate, Nat.sub_mul]
  omega

/-- A screen whose array was just allocated, and filled down to row `rows`. -/
def filledTo (s : TranscriptScreen) (rows : Nat) (blank : JChar) : TranscriptScreen :=
  { s with mData := freshCells s.mColumns s.mTotalRows rows blank 0 }

/-- One row further. -/
theorem fillRun_filledTo {s : TranscriptScreen} {k : Nat} (hk : k < s.mTotalRows) (blank : JChar) :
    returns (fillRun ((k * s.mColumns : Nat) : Int) s.mColumns blank)
      (fun _ t => t = s.filledTo (k + 1) blank) (s.filledTo k blank) := by
  have hnext : (k + 1) * s.mColumns = k * s.mColumns + s.mColumns := Nat.succ_mul _ _
  have hmul : (k + 1) * s.mColumns ≤ s.mTotalRows * s.mColumns := Nat.mul_le_mul_right _ hk
  have hlength : (s.filledTo k blank).mData.length = s.mTotalRows * s.mColumns :=
    length_freshCells _ _ (Nat.le_of_lt hk)
  refine returns_mono (fillRun_returns blank (by omega)) ?_
  rintro _ _ ⟨d, rfl, hd, hcells⟩
  have hfilled : d = freshCells s.mColumns s.mTotalRows (k + 1) blank 0 := by
    apply List.ext_getElem?
    intro i
    rw [hcells i]
    beta_reduce
    by_cases hi : i < s.mTotalRows * s.mColumns
    · rw [getElem?_freshCells _ _ (by omega) hi]
      show (if _ then _ else (freshCells s.mColumns s.mTotalRows k blank 0)[i]?) = _
      rw [getElem?_freshCells _ _ (by omega) hi]
      split_ifs <;> first | rfl | omega
    · rw [if_neg (by omega), List.getElem?_eq_none (by omega),
        List.getElem?_eq_none (by rw [length_freshCells _ _ (by omega)]; omega)]
  rw [hfilled]
  rfl

/-- `blockSet` on the whole of a screen whose cells are all 0. -/
theorem blockSet_filledTo {s : TranscriptScreen} (hle : s.mScreenRows ≤ s.mTotalRows)
    (hsize : ((s.mTotalRows * s.mColumns : Nat) : Int) ≤ intMax) (f b : Nat) :
    wp (blockSet 0 0 s.mColumns s.mScreenRows 32 f b)
      (fun _ t => t = s.filledTo s.mScreenRows (encode 32 f b)) (fun _ _ => True)
      (s.filledTo 0 (encode 32 f b)) := by
  have hmul := Nat.mul_le_mul_right s.mColumns hle
  unfold blockSet
  generalize encode 32 f b = blank
  rw [wp_bind, wp_get, wp_bind, wp_throwIf]
  refine ⟨fun _ => trivial, fun _ => ?_⟩
  rw [Int.toNat_natCast]
  refine wp_repeatFor (fun k t => t = s.filledTo k blank) rfl ?_
  rintro k _ hk rfl
  rw [wp_bind]
  have hoffset := @wp_getOffset (s.filledTo k blank)
    (show ((s.mScreenRows * s.mColumns : Nat) : Int) ≤ intMax by omega) (0 + k) (by omega)
  refine wp_mono hoffset ?_ fun _ _ _ => trivial
  rintro _ _ ⟨rfl, _, rfl⟩
  have hrow := Nat.mul_le_mul_right s.mColumns (Nat.le_of_lt hk)
  have hin : ((k * s.mColumns : Nat) : Int) ≤ intMax := by omega
  have hadd : iadd ((0 + (k : Int)) * s.mColumns) 0 = ((k * s.mColumns : Nat) : Int) := by
    rw [Int.zero_add, ← Int.natCast_mul]
    exact @iadd_natCast (k * s.mColumns) 0 (k * s.mColumns) (Nat.le_refl _) hin
  have hcolumns : (s.filledTo k blank).mColumns = s.mColumns := rfl
  rw [hcolumns, hadd]
  exact wp_of_returns (fillRun_filledTo (by omega) blank) fun _ _ h => h

/-- What `init` leaves behind. -/
structure Fresh (columns totalRows screenRows : Nat) (blank : JChar) (s : TranscriptScreen) :
    Prop where
  active : Active s
  columns_eq : s.mColumns = columns
  totalRows_eq : s.mTotalRows = totalRows
  screenRows_eq : s.mScreenRows = screenRows
  data : s.mData = freshCells columns totalRows screenRows blank 0

theorem init_fresh {columns totalRows screenRows f b : Nat}
    (h : Storable columns totalRows screenRows) (hv : Written.Proper ⟨32, f, b⟩)
    (s : TranscriptScreen) :
    wp (init columns totalRows screenRows f b)
      (fun _ => Fresh columns totalRows screenRows (Written.code ⟨32, f, b⟩))
      (fun _ _ => True) s := by
  have hsize := h.size_isInt
  have hmul : imul (columns : Int) totalRows = ((columns * totalRows : Nat) : Int) :=
    imul_natCast (Nat.le_refl _) (by push_cast; exact hsize)
  unfold init
  simp only [wp_bind, wp_modify, wp_throwIf, hmul, Int.toNat_natCast]
  refine ⟨fun _ => trivial, fun _ => ?_⟩
  clear hmul
  generalize hs₀ : TranscriptScreen.mk columns totalRows 0 0 screenRows screenRows
    (List.replicate (columns * totalRows) 0) s.mRowBuffer s.mLineWrap = s₀
  have hcolumns : s₀.mColumns = columns := by rw [← hs₀]
  have htotal : s₀.mTotalRows = totalRows := by rw [← hs₀]
  have hrows : s₀.mScreenRows = screenRows := by rw [← hs₀]
  have hactive : s₀.mActiveTranscriptRows = 0 := by rw [← hs₀]
  have hhead : s₀.mHead = 0 := by rw [← hs₀]
  have hactiveRows : s₀.mActiveRows = screenRows := by rw [← hs₀]
  have hdata : freshCells s₀.mColumns s₀.mTotalRows 0 (encode 32 f b) 0 = s₀.mData := by
    rw [hcolumns, htotal, ← hs₀]
    unfold freshCells
    rw [Nat.zero_mul, List.replicate_zero, List.nil_append, Nat.sub_zero, Nat.mul_comm]
  clear hs₀
  have hstart : s₀.filledTo 0 (encode 32 f b) = s₀ := by
    unfold filledTo
    rw [hdata]
  have hset := @blockSet_filledTo s₀ (by rw [hrows, htotal]; exact h.screen_le)
    (by rw [htotal, hcolumns]; push_cast; rw [Int.mul_comm]; exact hsize) f b
  rw [hcolumns, hrows, hstart] at hset
  refine wp_mono hset ?_ fun _ _ _ => trivial
  rintro _ _ rfl
  refine wp_mono (keeps_consistencyCheck _ rfl) ?_ fun _ _ _ => trivial
  rintro _ _ rfl
  have hlength := @length_freshCells JChar s₀.mColumns s₀.mTotalRows screenRows (encode 32 f b) 0
    (by rw [htotal]; exact h.screen_le)
  refine ⟨⟨?_, ?_⟩, hcolumns, htotal, hrows, ?_⟩
  · exact {
      columns_pos := by show 0 < s₀.mColumns; rw [hcolumns]; exact h.columns_pos
      screen_le := by show s₀.mScreenRows ≤ s₀.mTotalRows; rw [hrows, htotal]; exact h.screen_le
      size_isInt := by
        show (s₀.mColumns : Int) * s₀.mTotalRows ≤ intMax
        rw [hcolumns, htotal]
        exact hsize
      rows_isInt := by show 2 * (s₀.mTotalRows : Int) ≤ intMax; rw [htotal]; exact h.rows_isInt
      data_length := hlength
      active_le := by show s₀.mActiveTranscriptRows ≤ _; rw [hactive]; exact Nat.zero_le _
      activeRows := by
        show s₀.mActiveRows = s₀.mScreenRows + s₀.mActiveTranscriptRows
        rw [hactiveRows, hrows, hactive, Nat.add_zero]
      head_filling := fun _ => hhead
      head_lt := fun hpos => absurd (show 0 < s₀.mActiveTranscriptRows from hpos)
        (by rw [hactive]; exact Nat.lt_irrefl 0)
      flags_length := by
        show (List.replicate totalRows false).length = s₀.mTotalRows
        rw [List.length_replicate, htotal]
      buffer_length := by
        show (List.replicate columns (0 : JChar)).length = s₀.mColumns
        rw [List.length_replicate, hcolumns] }
  · intro row r hr x hx c hc
    have hcell : (freshCells s₀.mColumns s₀.mTotalRows screenRows (encode 32 f b) 0)[
        r * s₀.mColumns + x]? = some c := hc
    have hx' : x < s₀.mColumns := hx
    rcases hr with ⟨_, hlt⟩ | ⟨i, hi, _⟩
    · have hlt' : r < screenRows := hrows ▸ hlt
      have hin : r * s₀.mColumns + x < screenRows * s₀.mColumns := rowMajor_lt hx' hlt'
      have hmul := Nat.mul_le_mul_right s₀.mColumns h.screen_le
      rw [getElem?_freshCells _ _ (by rw [htotal]; exact h.screen_le) (by rw [htotal]; omega),
        if_pos hin] at hcell
      have hblank : Written.code ⟨32, f, b⟩ = c := Option.some.inj hcell
      rw [← hblank]
      exact Written.legible_code hv
    · have hpos : i < s₀.mActiveTranscriptRows := hi
      rw [hactive] at hpos
      exact absurd hpos (Nat.not_lt_zero i)
  · show freshCells s₀.mColumns s₀.mTotalRows screenRows (encode 32 f b) 0 = _
    rw [hcolumns, htotal]
    rfl

/-! ## §6  Reading the text -/

/-- What a row of the screen or of the transcript is called in the array. -/
theorem Sized.locates {s : TranscriptScreen} (h : Sized s) {row : Int}
    (hlo : -s.mActiveTranscriptRows ≤ row) (hhi : row < s.mScreenRows) :
    ∃ r : Nat, (Locates s row r ∧ r < s.mTotalRows) ∧
      externalToInternalRow row s = .ok (r : Int) s ∧
      getOffset row s = .ok ((r * s.mColumns : Nat) : Int) s := by
  obtain ⟨r, hr⟩ := exists_locates hlo hhi
  have hle := h.screen_le
  have hactive := h.active_le
  have hrow : externalToInternalRow row s = .ok (r : Int) s ∧ r < s.mTotalRows := by
    by_cases hroom : s.mScreenRows < s.mTotalRows
    · have hwell := h.wellFormed hroom
      exact ⟨hr.externalToInternalRow hwell, hr.lt hwell⟩
    · rcases hr with ⟨rfl, hlt⟩ | ⟨i, hi, _⟩
      · exact ⟨externalToInternalRow_screen hlt, by omega⟩
      · omega
  refine ⟨r, ⟨hr, hrow.2⟩, hrow.1, ?_⟩
  have hin : r * s.mColumns ≤ s.mData.length := by
    rw [h.data_length]
    exact Nat.mul_le_mul_right _ (Nat.le_of_lt hrow.2)
  have hmul : imul (r : Int) s.mColumns = ((r * s.mColumns : Nat) : Int) :=
    imul_natCast hin h.length_isInt
  simp only [getOffset, bind, EStateM.bind, get_apply, hrow.1,
    pure, EStateM.pure, hmul]

/-- The numbers below `n`, as the loops over rows and columns count them. -/
theorem mem_range_int {n : Nat} {i : Int}
    (h : i ∈ (do let a ← List.range n; pure (a : Int) : List Int)) : ∃ a : Nat, i = a ∧ a < n := by
  simp only [List.bind_eq_flatMap, List.pure_def, List.mem_flatMap, List.mem_range,
    List.mem_singleton] at h
  obtain ⟨a, ha, rfl⟩ := h
  exact ⟨a, rfl, ha⟩

/-- A character that the emulator prints, or the end of a line. -/
def Printable (c : JChar) : Prop := c = 10 ∨ 32 ≤ c.toNat ∧ c.toNat ≤ 127

theorem Active.readRow {s : TranscriptScreen} (h : Active s) {row : Int} {r : Nat}
    (hr : Locates s row r) {rowBuffer : List JChar}
    (hread : TranscriptScreen.readRow ((r * s.mColumns : Nat) : Int) s.mColumns s.mData =
      .ok rowBuffer) : ∀ c ∈ rowBuffer, Printable c := by
  have hmem {l : List Int} {cs : List JChar} (hl : ∀ i ∈ l, ∃ x : Nat, i = x ∧ x < s.mColumns)
      (hcs : (l.mapM fun (column : Int) => (arrayGet (Exn.arrayIndexOutOfBounds .mData) s.mData
        (((r * s.mColumns : Nat) : Int) + column)).map (· &&& 0xff)) = .ok cs) :
      ∀ c ∈ cs, Printable c := by
    induction l generalizing cs with
    | nil =>
        cases hcs
        intro c hc
        cases hc
    | cons i l ih =>
        obtain ⟨x, rfl, hx⟩ := hl i List.mem_cons_self
        rw [List.mapM_cons, bind_ok_iff] at hcs
        obtain ⟨c, hc, hcs⟩ := hcs
        rw [bind_ok_iff] at hcs
        obtain ⟨cs', hcs', hcs⟩ := hcs
        cases hcs
        intro c' hc'
        rcases List.mem_cons.mp hc' with rfl | hc'
        · cases hget : arrayGet (Exn.arrayIndexOutOfBounds .mData) s.mData
            (((r * s.mColumns : Nat) : Int) + x) with
          | error e =>
              rw [hget] at hc
              cases hc
          | ok cell =>
              rw [hget] at hc
              cases hc
              have hcell := (arrayGet_ok_iff.mp hget).2
              rw [← Int.natCast_add, Int.toNat_natCast] at hcell
              have hlegible := h.inked row r hr x hx cell hcell
              have hlow : (cell &&& 0xff).toNat = cell.toNat % 256 := by
                rw [BitVec.toNat_and]
                exact Nat.and_two_pow_sub_one_eq_mod cell.toNat 8
              unfold Legible at hlegible
              rw [← hlow] at hlegible
              exact .inr hlegible
        · exact ih (fun y hy => hl y (List.mem_cons_of_mem _ hy)) hcs' c' hc'
  unfold TranscriptScreen.readRow at hread
  exact hmem (fun _ => mem_range_int) hread

theorem mem_of_appended {rowBuffer text : List JChar} {start len : Int}
    (h : appended rowBuffer start len = .ok text) : ∀ c ∈ text, c ∈ rowBuffer := by
  unfold appended at h
  split_ifs at h
  cases h
  intro c hc
  exact List.mem_of_mem_drop (List.mem_of_mem_take hc)

theorem Active.rowText {s : TranscriptScreen} (h : Active s) {row : Int}
    (hlo : -s.mActiveTranscriptRows ≤ row) (hhi : row < s.mScreenRows)
    (selX1 selY1 selX2 selY2 : Int) :
    wp (TranscriptScreen.rowText selX1 selY1 selX2 selY2 row)
      (fun text t => t = s ∧ ∀ c ∈ text, Printable c)
      (fun _ t => t = s) s := by
  obtain ⟨r, ⟨hr, _⟩, hinternal, hoffset⟩ := h.sized.locates hlo hhi
  unfold TranscriptScreen.rowText
  rw [wp_bind, wp_of_ok hoffset, wp_bind, wp_get, wp_bind, wp_checked]
  refine ⟨fun rowBuffer hread => ?_, fun _ _ => rfl⟩
  have hprintable := h.readRow hr hread
  rw [wp_ite]
  refine ⟨fun _ => ?_, fun _ => ?_⟩
  · rw [wp_bind, wp_of_ok hinternal, wp_bind, wp_checked]
    refine ⟨fun wrap _ => ?_, fun _ _ => rfl⟩
    rw [wp_ite]
    refine ⟨fun _ => ?_, fun _ => ?_⟩
    · rw [wp_checked]
      exact ⟨fun text htext => ⟨rfl, fun c hc => hprintable c (mem_of_appended htext c hc)⟩,
        fun _ _ => rfl⟩
    · rw [wp_bind, wp_checked]
      refine ⟨fun text htext => ?_, fun _ _ => rfl⟩
      rw [wp_pure]
      refine ⟨rfl, fun c hc => ?_⟩
      rcases List.mem_append.mp hc with hc | hc
      · exact hprintable c (mem_of_appended htext c hc)
      · exact .inl (List.mem_singleton.mp hc)
  · rw [wp_pure]
    exact ⟨rfl, fun c hc => absurd hc List.not_mem_nil⟩

/-- The text of the screen is made of characters that are printed, and line ends. -/
theorem Active.getTranscriptText {s : TranscriptScreen} (h : Active s) :
    wp TranscriptScreen.getTranscriptText (fun text t => t = s ∧ ∀ c ∈ text, Printable c)
      (fun _ t => t = s) s := by
  have hrows {l : List Int}
      (hl : ∀ i ∈ l, ∃ a : Nat, i = a ∧ a < s.mActiveTranscriptRows + s.mScreenRows) :
      wp (l.mapM fun (i : Int) => TranscriptScreen.rowText 0 (-s.mActiveTranscriptRows)
          s.mColumns s.mScreenRows (i - s.mActiveTranscriptRows))
        (fun texts t => t = s ∧ ∀ text ∈ texts, ∀ c ∈ text, Printable c) (fun _ t => t = s) s := by
    induction l with
    | nil =>
        rw [List.mapM_nil, wp_pure]
        exact ⟨rfl, fun _ hc => absurd hc List.not_mem_nil⟩
    | cons i l ih =>
        obtain ⟨a, rfl, ha⟩ := hl i List.mem_cons_self
        rw [List.mapM_cons, wp_bind]
        refine wp_mono (h.rowText (by omega) (by omega) _ _ _ _) ?_ fun _ _ ht => ht
        rintro text _ ⟨rfl, htext⟩
        rw [wp_bind]
        refine wp_mono (ih fun j hj => hl j (List.mem_cons_of_mem _ hj)) ?_ fun _ _ ht => ht
        rintro texts _ ⟨rfl, htexts⟩
        rw [wp_pure]
        refine ⟨rfl, fun text' hmem => ?_⟩
        rcases List.mem_cons.mp hmem with rfl | hmem
        · exact htext
        · exact htexts text' hmem
  unfold TranscriptScreen.getTranscriptText internalGetTranscriptText
  rw [wp_bind, wp_get, wp_bind, wp_get, wp_bind]
  refine wp_mono (hrows fun _ => mem_range_int) ?_ fun _ _ ht => ht
  rintro texts _ ⟨rfl, htexts⟩
  rw [wp_pure]
  refine ⟨rfl, fun c hc => ?_⟩
  obtain ⟨text, hmem, hc⟩ := List.mem_flatten.mp hc
  exact htexts text hmem c hc

end TranscriptScreen

end Kbox.Session
