import Kbox.Emulatorview.SamplePlatform
import Kbox.Emulatorview.TranscriptBuffer

/-!
# Runs of transcript operations

Any sequence of in-range calls on a new transcript is the same sequence of list edits on a blank
buffer, as long as only characters of one column in one `char` are written.  `Objects` follows the
line objects from slot to slot: no two rows ever share one.
-/

namespace Kbox.Emulatorview

open Kbox.Framework

namespace UnicodeTranscript

/-! ## §1  The calls -/

inductive Op where
  | scroll (topMargin bottomMargin : Nat) (style : Style)
  | setLineWrap (row : Int)
  | blockSet (sx sy w h : Nat) (val : Int) (style : Style)
  | setChar (column row : Nat) (codePoint : Int)
  | setCharStyle (column row : Nat) (codePoint : Int) (style : Style)
deriving DecidableEq, Repr

/-- A row as its readers see it: without text it is blank, without styles it has style 0. -/
def readRow (row : Int) : TranscriptM (Row Cell) := do
  let columns := (← get).mColumns
  let text ← getLine row 0 columns
  let color ← getLineColor row 0 columns
  let wrap ← getLineWrap row
  let styles ← checked
    ((List.range columns).mapM fun x : Nat => (color.getD (StyleRow.create 0 columns)).get x)
  return ⟨(text.getD (List.replicate columns 32)).zip styles, wrap⟩

/-- The objects in the slots of `mLines`, by number, and the number of the next one. -/
structure Objects where
  lines : List (Option Nat)
  next : Nat
deriving DecidableEq, Repr

namespace Objects

def create (totalRows : Nat) : Objects := ⟨List.replicate totalRows none, 0⟩

/-- The line object of a row. -/
def ofRow (o : Objects) (s : UnicodeTranscript) (row : Int) : Option Nat :=
  (o.lines[(s.internalRow row).toNat]?).join

/-- A row is allocated on demand. -/
def allocate (s : UnicodeTranscript) (o : Objects) (row : Nat) : Objects :=
  if (s.screenRow row).line = none then
    ⟨o.lines.set (s.screenSlot row) (some o.next), o.next + 1⟩
  else o

/-- The objects after a call on `s`; `scroll` moves them as it moves the contents of `mLines`. -/
def after (s : UnicodeTranscript) (o : Objects) : Op → Objects
  | .scroll top bottom _ => { o with
      lines := (scrollArray (.arrayIndexOutOfBounds .mLines) s top bottom none
        o.lines).toOption.getD o.lines }
  | .setLineWrap _ => o
  | .blockSet _ sy w h _ _ =>
      if w = 0 then o else (List.range h).foldl (fun o y => o.allocate s (sy + y)) o
  | .setChar _ row _ => o.allocate s row
  | .setCharStyle _ row _ _ => o.allocate s row

end Objects

namespace Op

variable [Platform]

def run : Op → TranscriptM Unit
  | scroll top bottom style => UnicodeTranscript.scroll top bottom style
  | setLineWrap row => UnicodeTranscript.setLineWrap row
  | blockSet sx sy w h val style => UnicodeTranscript.blockSet sx sy w h val style
  | setChar x y c => UnicodeTranscript.setChar x y c
  | setCharStyle x y c style => UnicodeTranscript.setCharStyle x y c style

/-- The list edit the call stands for. -/
def edit (b : ScrollBuffer Cell) : Op → ScrollBuffer Cell
  | scroll top bottom style => b.scroll top bottom (32, style)
  | setLineWrap row => b.setLineWrap row
  | blockSet sx sy w h val style => b.blockSet sx sy w h (toJChar val, style)
  | setChar x y c => setGlyph b x y (toJChar c)
  | setCharStyle x y c style => b.set x y (toJChar c, style)

/-- The arguments name existing rows, columns and rectangles, characters of one column in one
`char`, and styles of three bytes. -/
def InRange (b : ScrollBuffer Cell) : Op → Prop
  | scroll top bottom style => top < bottom ∧ bottom ≤ b.screen.length ∧ Narrow style
  | setLineWrap row => -b.history.length ≤ row ∧ row < b.screen.length
  | blockSet sx sy w h val style =>
      sx + w ≤ b.columns ∧ sy + h ≤ b.screen.length ∧ isBasicChar val ∧ Narrow style
  | setChar x y c => x < b.columns ∧ y < b.screen.length ∧ isBasicChar c
  | setCharStyle x y c style =>
      x < b.columns ∧ y < b.screen.length ∧ isBasicChar c ∧ Narrow style

instance (b : ScrollBuffer Cell) (op : Op) : Decidable (op.InRange b) := by
  cases op <;> unfold InRange <;> infer_instance

/-- Every call of the list is in range when its turn comes. -/
def AllInRange : List Op → ScrollBuffer Cell → Prop
  | [], _ => True
  | op :: ops, b => op.InRange b ∧ AllInRange ops (op.edit b)

def runAll : List Op → TranscriptM Unit
  | [] => pure ⟨⟩
  | op :: ops => do
      op.run
      runAll ops

/-- The objects after a run from `s`. -/
def trackAll : List Op → UnicodeTranscript → Objects → Objects
  | [], _, o => o
  | op :: ops, s, o => trackAll ops (Framework.after op.run s) (o.after s op)

variable {s t : UnicodeTranscript} {o : Objects}

/-- One call is one list edit. -/
theorem run_toBuffer (hs : Plain s) {op : Op} (hop : op.InRange s.toBuffer) :
    returns op.run (fun _ t => Plain t ∧ t.toBuffer = op.edit s.toBuffer) s := by
  have hcolumns : s.toBuffer.columns = s.mColumns := rfl
  cases op <;> simp only [InRange, length_screen, length_history, hcolumns] at hop
  case scroll top bottom style =>
    obtain ⟨hmargins, hbottom, hstyle⟩ := hop
    exact scroll_toBuffer hs hmargins hbottom hstyle
  case setLineWrap row => exact setLineWrap_toBuffer hs hop
  case blockSet sx sy w h val style =>
    obtain ⟨hx, hy, hval, hstyle⟩ := hop
    exact blockSet_toBuffer hs hx hy hval hstyle
  case setChar x y c =>
    obtain ⟨hx, hy, hc⟩ := hop
    exact setChar_toBuffer hs hx hy hc
  case setCharStyle x y c style =>
    obtain ⟨hx, hy, hc, hstyle⟩ := hop
    exact setCharStyle_toBuffer hs hx hy hc hstyle

/-- The list edits of a run. -/
def editAll (ops : List Op) (b : ScrollBuffer Cell) : ScrollBuffer Cell := ops.foldl Op.edit b

theorem runAll_toBuffer (hs : Plain s) {ops : List Op} (hops : AllInRange ops s.toBuffer) :
    returns (runAll ops) (fun _ t => Plain t ∧ t.toBuffer = editAll ops s.toBuffer) s := by
  induction ops generalizing s with
  | nil => exact (wp_pure _ _ _ _).mpr ⟨hs, rfl⟩
  | cons op ops ih =>
      obtain ⟨hop, hrest⟩ := hops
      unfold runAll returns
      rw [wp_bind]
      refine wp_of_returns (run_toBuffer hs hop) fun _ t ht => ?_
      obtain ⟨ht, hbuffer⟩ := ht
      have hrest' := ih ht (by rw [hbuffer]; exact hrest)
      rw [hbuffer] at hrest'
      exact hrest'

end Op

/-! ## §2  A new transcript -/

variable {s t : UnicodeTranscript}

theorem screenRow_create (columns totalRows screenRows : Nat) (defaultStyle : Style) (k : Nat) :
    (create columns totalRows screenRows defaultStyle).screenRow k = ⟨none, none, false⟩ := by
  unfold screenRow slot create
  simp only [List.getElem?_replicate]
  split_ifs <;> rfl

theorem plain_create {columns totalRows screenRows : Nat} (hroom : screenRows < totalRows)
    (hcolumns : (columns : Int) ≤ intMax) (hrows : (totalRows : Int) ≤ intMax)
    (defaultStyle : Style) : Plain (create columns totalRows screenRows defaultStyle) where
  lines := List.length_replicate
  colors := List.length_replicate
  flags := List.length_replicate
  first_lt := Nat.lt_of_le_of_lt (Nat.zero_le _) hroom
  rows_le := by
    show 0 + screenRows ≤ totalRows
    omega
  room := hroom
  columns_int := hcolumns
  rows_int := by
    show (screenRows : Int) ≤ intMax
    omega
  rows k _ := by
    rw [screenRow_create]
    refine ⟨fun _ h => ?_, fun _ h => ?_, fun h => absurd rfl h⟩
    · cases h
    · cases h

theorem toBuffer_create (columns totalRows screenRows : Nat) (defaultStyle : Style) :
    (create columns totalRows screenRows defaultStyle).toBuffer =
      .blank columns (totalRows - screenRows) screenRows (32, 0) := by
  refine ScrollBuffer.ext rfl rfl rfl ?_
  show (List.range screenRows).map _ = List.replicate screenRows _
  rw [List.eq_replicate_iff]
  refine ⟨by rw [List.length_map, List.length_range], fun row hrow => ?_⟩
  obtain ⟨y, _, rfl⟩ := List.mem_map.mp hrow
  rw [screenRow_create]
  show (⟨(List.range columns).map fun _ => ((32 : JChar), (0 : Style)), false⟩ : Row Cell) = _
  rw [List.map_const', List.length_range]

/-! ## §3  Reading -/

/-- The number of a row behind the first one of the screen. -/
def place (s : UnicodeTranscript) (row : Int) : Nat :=
  if 0 ≤ row then row.toNat else (s.mTotalRows + row).toNat

theorem Plain.place_lt (hs : Plain s) {row : Int} (hrow : s.InRange row) :
    s.place row < s.mTotalRows := by
  have hroom := hs.room
  have hactive := hs.active_le
  obtain ⟨hlo, hhi⟩ := hrow
  unfold place
  split_ifs <;> omega

theorem Plain.place_inj (hs : Plain s) {row row' : Int} (hrow : s.InRange row)
    (hrow' : s.InRange row') (h : s.place row = s.place row') : row = row' := by
  have hroom := hs.room
  have hactive := hs.active_le
  obtain ⟨hlo, hhi⟩ := hrow
  obtain ⟨hlo', hhi'⟩ := hrow'
  unfold place at h
  split_ifs at h <;> omega

theorem Plain.row_number (hs : Plain s) {row : Int} (hrow : s.InRange row) :
    externalToInternalRow row s = .ok (s.screenSlot (s.place row) : Int) s := by
  have hactive := hs.active_le
  have hroom := hs.room
  obtain ⟨hlo, hhi⟩ := hrow
  unfold place
  by_cases hscreen : 0 ≤ row
  · obtain ⟨y, rfl⟩ := Int.eq_ofNat_of_zero_le hscreen
    rw [if_pos hscreen]
    exact screenRow_number (by omega)
  · rw [if_neg hscreen]
    have hi : ((row + s.mActiveTranscriptRows).toNat : Int) = row + s.mActiveTranscriptRows := by
      omega
    have hnumber := historyRow_number hs (i := (row + s.mActiveTranscriptRows).toNat) (by omega)
    rw [hi, add_sub_cancel_right] at hnumber
    rw [hnumber, show s.mTotalRows - s.mActiveTranscriptRows +
      (row + s.mActiveTranscriptRows).toNat = (s.mTotalRows + row).toNat by omega]

theorem Plain.row?_eq (hs : Plain s) {row : Int} (hrow : s.InRange row) :
    s.toBuffer.row? row = some ((s.screenRow (s.place row)).toRow s.mColumns) := by
  have hactive := hs.active_le
  have hroom := hs.room
  obtain ⟨hlo, hhi⟩ := hrow
  unfold ScrollBuffer.row? place
  rw [length_history]
  by_cases hscreen : 0 ≤ row
  · rw [if_neg (by omega), if_pos hscreen]
    exact getElem?_screen (by omega)
  · rw [if_pos (by omega), if_neg (by omega), if_neg hscreen, getElem?_history (by omega)]
    unfold historyRow
    congr 3
    omega

theorem styles_mapM {columns : Nat} {color : StyleRow} (hcolor : color.Holds Narrow columns) :
    (List.range columns).mapM (fun x : Nat => color.get x) =
      .ok ((List.range columns).map fun x : Nat => (color.get x).toOption.getD 0) := by
  refine mapM_ok fun x hx => ?_
  obtain ⟨style, hstyle, _⟩ := hcolor.get (List.mem_range.mp hx)
  rw [hstyle]
  rfl

theorem StoredRow.Plain.cells_eq {columns : Nat} {r : StoredRow} (h : r.Plain columns) :
    (r.basicText columns).zip
        ((List.range columns).map fun x : Nat => ((r.styles columns).get x).toOption.getD 0) =
      (r.toRow columns).cells := by
  have htext : r.basicText columns = (List.range columns).map r.charAt := by
    apply List.ext_getElem?
    intro x
    by_cases hx : x < columns
    · have hlt : x < (r.basicText columns).length := by
        rw [h.length_basicText]
        exact hx
      have hchar := h.charAt_eq hx
      rw [List.getD_eq_getElem?_getD, List.getElem?_eq_getElem hlt] at hchar
      rw [List.getElem?_eq_getElem hlt, List.getElem?_map, List.getElem?_range hx]
      exact congrArg some hchar
    · rw [List.getElem?_eq_none (by rw [h.length_basicText]; omega),
        List.getElem?_eq_none (by rw [List.length_map, List.length_range]; omega)]
  rw [htext, List.zip_map']
  refine List.map_congr_left fun x _ => ?_
  rw [r.styleAt_eq columns]

/-- What is read is the row of the buffer. -/
theorem readRow_eq (hs : Plain s) {row : Int} (hrow : s.InRange row) :
    readRow row s = .ok ((s.screenRow (s.place row)).toRow s.mColumns) s := by
  have hplain := hs.rows _ (hs.place_lt hrow)
  have hnumber := hs.row_number hrow
  have hin : ¬ (row < -(s.mActiveTranscriptRows : Int) ∨ row > s.mScreenRows - 1) := by
    obtain ⟨hlo, hhi⟩ := hrow
    omega
  have hline : returns (getLine row 0 s.mColumns) (fun text t => t = s ∧
      text.getD (List.replicate s.mColumns 32) =
        (s.screenRow (s.place row)).basicText s.mColumns) s := by
    unfold getLine returns
    rw [wp_bind, wp_get, wp_bind, wp_throwIf]
    refine ⟨fun hout => absurd hout hin, fun _ => ?_⟩
    rw [wp_bind, wp_of_ok hnumber, wp_bind, wp_of_ok (lineAt_slot hs.toRing _)]
    cases hcase : (s.screenRow (s.place row)).line with
    | none =>
        refine (wp_pure _ _ _ _).mpr ⟨rfl, ?_⟩
        unfold StoredRow.basicText
        rw [hcase]
        rfl
    | some line =>
        obtain ⟨text, rfl, _⟩ := hplain.text line hcase
        show wp (if (0 : Int) = 0 ∧ (s.mColumns : Int) = s.mColumns then _ else _) _ _ s
        rw [if_pos ⟨rfl, rfl⟩]
        refine (wp_pure _ _ _ _).mpr ⟨rfl, ?_⟩
        unfold StoredRow.basicText
        rw [hcase]
        rfl
  have hcolor : returns (getLineColor row 0 s.mColumns) (fun color t => t = s ∧
      color.getD (StyleRow.create 0 s.mColumns) =
        (s.screenRow (s.place row)).styles s.mColumns) s := by
    unfold getLineColor returns
    rw [wp_bind, wp_get, wp_bind, wp_throwIf]
    refine ⟨fun hout => absurd hout hin, fun _ => ?_⟩
    rw [wp_bind, wp_of_ok hnumber, wp_bind, wp_of_ok (colorAt_slot hs.toRing _)]
    unfold StoredRow.styles
    cases hcase : (s.screenRow (s.place row)).color with
    | none => exact (wp_pure _ _ _ _).mpr ⟨rfl, rfl⟩
    | some color =>
        show wp (if (0 : Int) = 0 ∧ (s.mColumns : Int) = s.mColumns then _ else _) _ _ s
        rw [if_pos ⟨rfl, rfl⟩]
        exact (wp_pure _ _ _ _).mpr ⟨rfl, rfl⟩
  have hwrap : getLineWrap row s = .ok (s.screenRow (s.place row)).wrap s := by
    have hslot : s.screenSlot (s.place row) < s.mLineWrap.length := by
      rw [hs.flags]
      exact screenSlot_lt hs.toRing _
    have hget : arrayGet (Exn.arrayIndexOutOfBounds .mLineWrap) s.mLineWrap
        (s.screenSlot (s.place row)) = .ok s.mLineWrap[s.screenSlot (s.place row)] :=
      arrayGet_of_lt hslot
    have hflag : (s.screenRow (s.place row)).wrap = s.mLineWrap[s.screenSlot (s.place row)] := by
      unfold screenRow slot
      simp only [List.getElem?_eq_getElem hslot, Option.getD_some]
    rw [hflag]
    simp only [getLineWrap, lineWrapAt, bind, EStateM.bind, hnumber, get_apply, hget]
    rfl
  have hread : returns (readRow row)
      (fun r t => r = (s.screenRow (s.place row)).toRow s.mColumns ∧ t = s) s := by
    unfold readRow returns
    rw [wp_bind, wp_get, wp_bind]
    refine wp_of_returns hline ?_
    rintro text _ ⟨rfl, htext⟩
    rw [wp_bind]
    refine wp_of_returns hcolor ?_
    rintro color _ ⟨rfl, hcolor⟩
    rw [wp_bind, wp_of_ok hwrap, wp_bind, hcolor, styles_mapM hplain.holds_styles, wp_checked_ok,
      wp_pure, htext, hplain.cells_eq]
    exact ⟨rfl, rfl⟩
  obtain ⟨_, _, hok, rfl, rfl⟩ := returns_iff.mp hread
  exact hok

/-! ## §4  Objects -/

/-- `t` is `s` with lines in the rows `R` and the lines of `s` in all others. -/
structure Allocates (R : Nat → Prop) (s t : UnicodeTranscript) : Prop where
  fields : ∃ lines colors flags, t = { s with mLines := lines, mColor := colors, mLineWrap := flags }
  filled : ∀ k < s.mTotalRows, R k → (t.screenRow k).line ≠ none
  kept : ∀ k < s.mTotalRows, ¬ R k → (t.screenRow k).line = (s.screenRow k).line

theorem Rewrites.allocates {y : Nat} {row : StoredRow} (h : Rewrites y row s t)
    (hline : row.line ≠ none) : Allocates (fun k => k = y) s t where
  fields := h.fields
  filled := by
    rintro k _ rfl
    rw [h.rewritten]
    exact hline
  kept := fun k hk hne => by rw [h.kept k hk hne]

theorem Allocates.trans {u : UnicodeTranscript} {R R' : Nat → Prop} (h : Allocates R s t)
    (h' : Allocates R' t u) : Allocates (fun k => R k ∨ R' k) s u := by
  have htotal : t.mTotalRows = s.mTotalRows := by
    obtain ⟨_, _, _, rfl⟩ := h.fields
    rfl
  refine ⟨?_, fun k hk hin => ?_, fun k hk hout => ?_⟩
  · obtain ⟨_, _, _, rfl⟩ := h.fields
    obtain ⟨_, _, _, rfl⟩ := h'.fields
    exact ⟨_, _, _, rfl⟩
  · by_cases hlast : R' k
    · exact h'.filled k (by omega) hlast
    · rw [h'.kept k (by omega) hlast]
      exact h.filled k hk (hin.resolve_right hlast)
  · rw [h'.kept k (by omega) fun hlast => hout (.inr hlast),
      h.kept k hk fun hfirst => hout (.inl hfirst)]

theorem Allocates.congr {R R' : Nat → Prop} (h : Allocates R s t) (hR : ∀ k, R k ↔ R' k) :
    Allocates R' s t :=
  ⟨h.fields, fun k hk hin => h.filled k hk ((hR k).mpr hin),
    fun k hk hout => h.kept k hk fun hin => hout ((hR k).mp hin)⟩

theorem Allocates.refl (s : UnicodeTranscript) : Allocates (fun _ => False) s s :=
  ⟨⟨_, _, _, rfl⟩, fun _ _ h => h.elim, fun _ _ _ => rfl⟩

namespace Objects

variable {o : Objects} {R : Nat → Prop}

/-- The object of a row, by its place. -/
def label (o : Objects) (s : UnicodeTranscript) (k : Nat) : Option Nat :=
  (o.lines[s.screenSlot k]?).join

/-- Rows with a line have an object, each its own; those in `R` have been given one already. -/
structure Tracks (R : Nat → Prop) (o : Objects) (s : UnicodeTranscript) : Prop where
  length : o.lines.length = s.mTotalRows
  alive : ∀ k < s.mTotalRows, o.label s k = none ↔ (s.screenRow k).line = none ∧ ¬ R k
  below : ∀ k < s.mTotalRows, ∀ i, o.label s k = some i → i < o.next
  distinct : ∀ k < s.mTotalRows, ∀ k' < s.mTotalRows, o.label s k ≠ none →
    o.label s k = o.label s k' → k = k'

theorem tracks_create {columns totalRows screenRows : Nat} {defaultStyle : Style} :
    (Objects.create totalRows).Tracks (fun _ => False)
      (UnicodeTranscript.create columns totalRows screenRows defaultStyle) := by
  have hlabel (k : Nat) : (Objects.create totalRows).label
      (UnicodeTranscript.create columns totalRows screenRows defaultStyle) k = none := by
    unfold label Objects.create
    rw [List.getElem?_replicate]
    split_ifs <;> rfl
  refine ⟨List.length_replicate, fun k _ => ?_, fun k _ i h => ?_, fun k _ k' _ h => ?_⟩
  · rw [hlabel, screenRow_create]
    exact ⟨fun _ => ⟨rfl, id⟩, fun _ => rfl⟩
  · rw [hlabel] at h
    cases h
  · exact absurd (hlabel k) h

theorem Tracks.congr {R' : Nat → Prop} (h : o.Tracks R s) (hR : ∀ k, R k ↔ R' k) :
    o.Tracks R' s :=
  { h with alive := fun k hk => by rw [h.alive k hk, hR k] }

/-- One row more has its object. -/
theorem Tracks.allocate (h : o.Tracks R s) (hs : Ring s) {y : Nat} (hy : y < s.mTotalRows)
    (hR : ¬ R y) : (o.allocate s y).Tracks (fun k => R k ∨ k = y) s := by
  unfold Objects.allocate
  by_cases hline : (s.screenRow y).line = none
  · rw [if_pos hline]
    have hslot : s.screenSlot y < o.lines.length := by
      rw [h.length]
      exact screenSlot_lt hs y
    have hlabel (k : Nat) (hk : k < s.mTotalRows) :
        (⟨o.lines.set (s.screenSlot y) (some o.next), o.next + 1⟩ : Objects).label s k =
          if k = y then some o.next else o.label s k := by
      unfold label
      by_cases hky : k = y
      · subst hky
        rw [if_pos rfl, List.getElem?_set_self hslot]
        rfl
      · rw [if_neg hky, List.getElem?_set_ne (screenSlot_ne (Ne.symm hky) hy hk)]
    refine ⟨(List.length_set).trans h.length, fun k hk => ?_, fun k hk i hi => ?_,
      fun k hk k' hk' hsome hsame => ?_⟩
    · rw [hlabel k hk]
      by_cases hky : k = y
      · rw [if_pos hky]
        exact ⟨fun hnone => (by cases hnone), fun hnone => absurd (.inr hky) hnone.2⟩
      · rw [if_neg hky, h.alive k hk]
        exact and_congr_right fun _ => ⟨fun hout hin => hin.elim hout hky,
          fun hout hin => hout (.inl hin)⟩
    · rw [hlabel k hk] at hi
      by_cases hky : k = y
      · rw [if_pos hky] at hi
        cases hi
        exact Nat.lt_succ_self _
      · rw [if_neg hky] at hi
        exact Nat.lt_succ_of_lt (h.below k hk i hi)
    · rw [hlabel k hk] at hsome hsame
      rw [hlabel k' hk'] at hsame
      by_cases hky : k = y
      · by_cases hky' : k' = y
        · rw [hky, hky']
        · rw [if_pos hky, if_neg hky'] at hsame
          exact absurd (h.below k' hk' _ hsame.symm) (lt_irrefl _)
      · rw [if_neg hky] at hsome hsame
        by_cases hky' : k' = y
        · rw [if_pos hky'] at hsame
          exact absurd (h.below k hk _ hsame) (lt_irrefl _)
        · rw [if_neg hky'] at hsame
          exact h.distinct k hk k' hk' hsome hsame
  · rw [if_neg hline]
    refine ⟨h.length, fun k hk => ?_, h.below, h.distinct⟩
    rw [h.alive k hk]
    refine and_congr_right fun hnone => ⟨fun hout hin => ?_, fun hout hin => hout (.inl hin)⟩
    rcases hin with hin | rfl
    · exact hout hin
    · exact hline hnone

/-- The rows that were given an object have a line by now. -/
theorem Tracks.settle (h : o.Tracks R s) (hst : Allocates R s t) :
    o.Tracks (fun _ => False) t := by
  have hlabel (k : Nat) : o.label t k = o.label s k := by
    obtain ⟨_, _, _, rfl⟩ := hst.fields
    rfl
  have htotal : t.mTotalRows = s.mTotalRows := by
    obtain ⟨_, _, _, rfl⟩ := hst.fields
    rfl
  refine ⟨h.length.trans htotal.symm, fun k hk => ?_, fun k hk i => ?_, fun k hk k' hk' => ?_⟩
  · rw [htotal] at hk
    rw [hlabel, h.alive k hk]
    by_cases hin : R k
    · exact ⟨fun hout => absurd hin hout.2, fun hnone => absurd hnone.1 (hst.filled k hk hin)⟩
    · rw [hst.kept k hk hin]
      exact ⟨fun hnone => ⟨hnone.1, id⟩, fun hnone => ⟨hnone.1, hin⟩⟩
  · rw [hlabel]
    exact h.below k (by omega) i
  · rw [hlabel, hlabel]
    exact h.distinct k (by omega) k' (by omega)

/-- `scroll` moves the objects along with the lines; the row that scrolls in has none. -/
theorem Tracks.scroll (h : o.Tracks (fun _ => False) s) (hs : Plain s) {top bottom : Nat}
    {style : Style} (hmargins : top < bottom) (hbottom : bottom ≤ s.mScreenRows)
    (hst : Scrolled top bottom style s t) :
    (o.after s (.scroll top bottom style)).Tracks (fun _ => False) t := by
  have hroom := hs.room
  obtain ⟨ys, hys, hlength, hrows⟩ := scrollArray_rows (.arrayIndexOutOfBounds .mLines) hs.toRing
    h.length hroom hmargins hbottom none
  obtain ⟨_, _, htotal, _⟩ := hst.sizes
  have hafter : o.after s (.scroll top bottom style) = { o with lines := ys } := by
    show ({ o with lines := (scrollArray (.arrayIndexOutOfBounds .mLines) s top bottom none
      o.lines).toOption.getD o.lines } : Objects) = _
    rw [hys]
    rfl
  have hslot (k : Nat) : t.screenSlot k = s.screenSlot (k + 1) := by
    obtain ⟨_, _, _, hfields⟩ := hst.fields
    rw [← screenSlot_advanced, hfields]
    rfl
  have hlabel (k : Nat) (hk : k < s.mTotalRows) : ({ o with lines := ys } : Objects).label t k =
      (s.scrollSource top bottom k).elim none (o.label s) := by
    unfold label
    rw [hslot, hrows k hk]
    cases s.scrollSource top bottom k with
    | none => rfl
    | some j => rfl
  have hsource {k j : Nat} (hj : s.scrollSource top bottom k = some j) (hk : k < s.mTotalRows) :
      j < s.mTotalRows := by
    unfold scrollSource at hj
    split_ifs at hj <;> simp only [Option.some.injEq] at hj <;> omega
  rw [hafter]
  refine ⟨hlength.trans htotal.symm, fun k hk => ?_, fun k hk i hi => ?_,
    fun k hk k' hk' hsome hsame => ?_⟩
  · rw [htotal] at hk
    rw [hlabel k hk, hst.rows k hk]
    cases hj : s.scrollSource top bottom k with
    | none => exact ⟨fun _ => ⟨rfl, id⟩, fun _ => rfl⟩
    | some j => exact h.alive j (hsource hj hk)
  · rw [htotal] at hk
    rw [hlabel k hk] at hi
    cases hj : s.scrollSource top bottom k with
    | none =>
        rw [hj] at hi
        cases hi
    | some j =>
        rw [hj] at hi
        exact h.below j (hsource hj hk) i hi
  · rw [htotal] at hk hk'
    rw [hlabel k hk] at hsome hsame
    rw [hlabel k' hk'] at hsame
    cases hj : s.scrollSource top bottom k with
    | none =>
        rw [hj] at hsome
        exact absurd rfl hsome
    | some j =>
        cases hj' : s.scrollSource top bottom k' with
        | none =>
            rw [hj, hj'] at hsame
            rw [hj] at hsome
            exact absurd hsame hsome
        | some j' =>
            rw [hj, hj'] at hsame
            rw [hj] at hsome
            have heq := h.distinct j (hsource hj hk) j' (hsource hj' hk') hsome hsame
            refine scrollSource_inj hmargins hk hk' ?_
            rw [hj, hj', heq]

end Objects

section Tracking

variable [Platform] {o : Objects}

theorem setCharStyle_allocates (hs : Plain s) {x y : Nat} (hx : x < s.mColumns)
    (hy : y < s.mScreenRows) {c : Int} (hc : isBasicChar c) {style : Style} (hstyle : Narrow style) :
    returns (setCharStyle x y c style)
      (fun _ t => Plain t ∧ Allocates (fun k => k = y) s t) s := by
  have hboth := wp_and (setCharStyle_toBuffer hs hx hy hc hstyle)
    (setCharStyle_rewrites hs hx hy hc hstyle)
  refine wp_mono hboth ?_ fun _ _ h => h.1
  rintro _ t ⟨⟨ht, _⟩, color, _, _, hrewrites⟩
  exact ⟨ht, hrewrites.allocates fun h => by cases h⟩

theorem fillRow_allocates (hs : Plain s) {sx y w : Nat} (hx : sx + w ≤ s.mColumns)
    (hy : y < s.mScreenRows) {val : Int} (hval : isBasicChar val) {style : Style}
    (hstyle : Narrow style) :
    returns (repeatFor w fun x => setCharStyle (sx + x) y val style)
      (fun _ t => Plain t ∧ Allocates (fun k => 0 < w ∧ k = y) s t) s := by
  have hfilled := @returns_repeatFor _ _ (fun x : Nat => setCharStyle (sx + x) y val style)
    (fun x t => Plain t ∧ Allocates (fun k => 0 < x ∧ k = y) s t) w s
  refine hfilled ⟨hs, (Allocates.refl s).congr fun k => ?_⟩ fun x t hx' ht => ?_
  · exact ⟨False.elim, fun h => absurd h.1 (lt_irrefl 0)⟩
  obtain ⟨ht, hallocates⟩ := ht
  have hsizes : t.mColumns = s.mColumns ∧ t.mScreenRows = s.mScreenRows := by
    obtain ⟨_, _, _, rfl⟩ := hallocates.fields
    exact ⟨rfl, rfl⟩
  have hset := setCharStyle_allocates ht (show sx + x < t.mColumns by omega)
    (show y < t.mScreenRows by omega) hval hstyle
  push_cast at hset
  refine wp_of_returns hset ?_
  rintro _ u ⟨hu, hnext⟩
  refine ⟨hu, (hallocates.trans hnext).congr fun k => ?_⟩
  omega

theorem blockSet_allocates (hs : Plain s) {sx sy w h : Nat} (hx : sx + w ≤ s.mColumns)
    (hy : sy + h ≤ s.mScreenRows) {val : Int} (hval : isBasicChar val) {style : Style}
    (hstyle : Narrow style) :
    returns (blockSet sx sy w h val style)
      (fun _ t => Allocates (fun k => 0 < w ∧ sy ≤ k ∧ k < sy + h) s t) s := by
  have hfilled := @returns_repeatFor _ _ (fun y : Nat => repeatFor w fun x : Nat =>
      setCharStyle (sx + x) (sy + y) val style)
    (fun y t => Plain t ∧ Allocates (fun k => 0 < w ∧ sy ≤ k ∧ k < sy + y) s t) h s
  unfold blockSet returns
  rw [wp_bind, wp_get, wp_bind, wp_throwIf, iadd_natCast hx hs.columns_int,
    iadd_natCast hy hs.rows_int]
  refine ⟨fun hout => by omega, fun _ => ?_⟩
  have hnone (k : Nat) : False ↔ 0 < w ∧ sy ≤ k ∧ k < sy + 0 :=
    iff_of_false id (by omega)
  refine wp_of_returns (hfilled ⟨hs, (Allocates.refl s).congr hnone⟩
    fun y t hy' ht => ?_) fun _ _ h => h.2
  obtain ⟨ht, hallocates⟩ := ht
  have hsizes : t.mColumns = s.mColumns ∧ t.mScreenRows = s.mScreenRows := by
    obtain ⟨_, _, _, rfl⟩ := hallocates.fields
    exact ⟨rfl, rfl⟩
  have hrow := fillRow_allocates ht (show sx + w ≤ t.mColumns by omega)
    (show sy + y < t.mScreenRows by omega) hval hstyle
  push_cast at hrow
  refine wp_of_returns hrow ?_
  rintro _ u ⟨hu, hnext⟩
  refine ⟨hu, (hallocates.trans hnext).congr fun k => ?_⟩
  omega

omit [Platform] in
theorem setLineWrap_allocates (s : UnicodeTranscript) (row : Int) :
    wp (setLineWrap row) (fun _ => Allocates (fun _ => False) s) (fun _ _ => True) s := by
  have hnumber : wp (externalToInternalRow row) (fun _ t => t = s) (fun _ _ => True) s := by
    have hrow := externalToInternalRow_eq s row
    by_cases hout : row < -s.mActiveTranscriptRows ∨ row > s.mScreenRows
    · rw [if_pos hout] at hrow
      exact (wp_of_error hrow).mpr trivial
    · rw [if_neg hout] at hrow
      exact (wp_of_ok hrow).mpr rfl
  unfold setLineWrap storeLineWrap
  rw [wp_bind]
  refine wp_mono hnumber ?_ fun _ _ h => h
  rintro r t rfl
  rw [wp_bind, wp_get, wp_bind, wp_checked]
  refine ⟨fun flags _ => ?_, fun _ _ => trivial⟩
  rw [wp_set]
  exact ⟨⟨_, _, _, rfl⟩, fun _ _ h => h.elim, fun _ _ _ => rfl⟩

omit [Platform] in
/-- The rows of a rectangle get their objects one after the other. -/
theorem Objects.Tracks.allocateRows (ho : o.Tracks (fun _ => False) s) (hs : Ring s) {sy h : Nat}
    (hy : sy + h ≤ s.mTotalRows) :
    ((List.range h).foldl (fun o y => o.allocate s (sy + y)) o).Tracks
      (fun k => sy ≤ k ∧ k < sy + h) s := by
  induction h with
  | zero => exact ho.congr fun k => iff_of_false id (by omega)
  | succ h ih =>
      rw [List.range_succ, List.foldl_append]
      refine ((ih (by omega)).allocate hs (by omega) (by omega)).congr fun k => ?_
      omega

theorem Op.run_tracks (hs : Plain s) (ho : o.Tracks (fun _ => False) s) {op : Op}
    (hop : op.InRange s.toBuffer) :
    returns op.run (fun _ t => (o.after s op).Tracks (fun _ => False) t) s := by
  have hroom := hs.room
  have hcolumns : s.toBuffer.columns = s.mColumns := rfl
  cases op <;> simp only [InRange, length_screen, length_history, hcolumns] at hop
  case scroll top bottom style =>
    obtain ⟨hmargins, hbottom, _⟩ := hop
    exact wp_of_returns (scroll_returns hs.toRing hroom hmargins hbottom style)
      fun _ t ht => ho.scroll hs hmargins hbottom ht
  case setLineWrap row =>
    have hmarks := wp_and (setLineWrap_toBuffer hs hop) (setLineWrap_allocates s row)
    exact wp_mono hmarks (fun _ t ht => ho.settle ht.2) fun _ _ h => h.1
  case blockSet sx sy w h val style =>
    obtain ⟨hx, hy, hval, hstyle⟩ := hop
    refine wp_of_returns (blockSet_allocates hs hx hy hval hstyle) fun _ t ht => ?_
    show (if w = 0 then o else _).Tracks _ t
    by_cases hw : w = 0
    · rw [if_pos hw]
      have hnone (k : Nat) : 0 < w ∧ sy ≤ k ∧ k < sy + h ↔ False :=
        iff_of_false (by omega) id
      exact ho.settle (ht.congr hnone)
    · rw [if_neg hw]
      have hrows (k : Nat) : 0 < w ∧ sy ≤ k ∧ k < sy + h ↔ sy ≤ k ∧ k < sy + h := by omega
      exact (ho.allocateRows hs.toRing (by omega)).settle (ht.congr hrows)
  case setChar x y c =>
    obtain ⟨hx, hy, hc⟩ := hop
    refine wp_of_returns (setChar_rewrites hs hx hy hc) fun _ t ht => ?_
    exact (ho.allocate hs.toRing (by omega) id).settle
      ((ht.allocates fun h => by cases h).congr fun k => by tauto)
  case setCharStyle x y c style =>
    obtain ⟨hx, hy, hc, hstyle⟩ := hop
    refine wp_of_returns (setCharStyle_allocates hs hx hy hc hstyle) fun _ t ht => ?_
    exact (ho.allocate hs.toRing (by omega) id).settle (ht.2.congr fun k => by tauto)

theorem Op.runAll_tracks (hs : Plain s) (ho : o.Tracks (fun _ => False) s) {ops : List Op}
    (hops : AllInRange ops s.toBuffer) :
    returns (runAll ops) (fun _ t => (trackAll ops s o).Tracks (fun _ => False) t) s := by
  induction ops generalizing s o with
  | nil => exact (wp_pure _ _ _ _).mpr ho
  | cons op ops ih =>
      obtain ⟨hop, hrest⟩ := hops
      obtain ⟨_, u, hrun, ⟨hu, hbuffer⟩, htracks⟩ := returns_iff.mp
        (wp_mono (wp_and (run_toBuffer hs hop) (run_tracks hs ho hop)) (fun _ _ h => h)
          fun _ _ h => h.1)
      have hafter : Framework.after op.run s = u := by
        unfold Framework.after
        rw [hrun]
      unfold runAll trackAll returns
      rw [wp_bind, wp_of_ok hrun, hafter]
      exact ih hu htracks (by rw [hbuffer]; exact hrest)

omit [Platform] in
theorem Objects.ofRow_eq (o : Objects) (hs : Plain s) {row : Int} (hrow : s.InRange row) :
    o.ofRow s row = o.label s (s.place row) := by
  have hnumber := hs.row_number hrow
  have hin : ¬ (row < -(s.mActiveTranscriptRows : Int) ∨ row > s.mScreenRows) := by
    obtain ⟨hlo, hhi⟩ := hrow
    omega
  rw [externalToInternalRow_eq, if_neg hin] at hnumber
  injection hnumber with hslot
  unfold ofRow label
  rw [hslot, Int.toNat_natCast]

/-- **The transcript is a scrollback buffer.**  After any run of calls on a new transcript every
row reads as the row of the buffer after the list edits, and no two rows share a line object. -/
theorem transcript_refines_scrollback {columns totalRows screenRows : Nat}
    (hroom : screenRows < totalRows) (hcolumns : (columns : Int) ≤ intMax)
    (hrows : (totalRows : Int) ≤ intMax) (defaultStyle : Style) {ops : List Op}
    (hops : Op.AllInRange ops (.blank columns (totalRows - screenRows) screenRows (32, 0))) :
    let s := create columns totalRows screenRows defaultStyle
    let b := Op.editAll ops (.blank columns (totalRows - screenRows) screenRows (32, 0))
    ∃ t, Op.runAll ops s = .ok ⟨⟩ t ∧ t.mActiveTranscriptRows = b.history.length ∧
      t.mScreenRows = b.screen.length ∧
      (∀ row, t.InRange row → ∃ r, b.row? row = some r ∧ readRow row t = .ok r t) ∧
      ∀ row row', t.InRange row → t.InRange row' → row ≠ row' →
        (Op.trackAll ops s (.create totalRows)).ofRow t row ≠ none →
        (Op.trackAll ops s (.create totalRows)).ofRow t row ≠
          (Op.trackAll ops s (.create totalRows)).ofRow t row' := by
  intro s b
  have hs : Plain s := plain_create hroom hcolumns hrows defaultStyle
  have hcreate : s.toBuffer = _ := toBuffer_create columns totalRows screenRows defaultStyle
  rw [← hcreate] at hops
  obtain ⟨_, t, hrun, ⟨ht, hbuffer⟩, htracks⟩ := returns_iff.mp
    (wp_mono (wp_and (Op.runAll_toBuffer hs hops) (Op.runAll_tracks hs Objects.tracks_create hops))
      (fun _ _ h => h) fun _ _ h => h.1)
  have hb : t.toBuffer = b := by
    rw [hbuffer, hcreate]
  have hhistory := length_history t
  have hscreen := length_screen t
  rw [hb] at hhistory hscreen
  refine ⟨t, hrun, hhistory.symm, hscreen.symm, fun row hrow => ?_,
    fun row row' hrow hrow' hne hsome hsame => hne ?_⟩
  · refine ⟨_, ?_, readRow_eq ht hrow⟩
    rw [← hb]
    exact ht.row?_eq hrow
  · rw [Objects.ofRow_eq _ ht hrow] at hsome hsame
    rw [Objects.ofRow_eq _ ht hrow'] at hsame
    exact ht.place_inj hrow hrow' (htracks.distinct _ (ht.place_lt hrow) _ (ht.place_lt hrow')
      hsome hsame)

/-- Two characters, of which one scrolls away behind a line-wrap mark. -/
def scrolledAway : List Op :=
  [.setCharStyle 0 0 97 1, .setChar 1 1 98, .setLineWrap 0, .scroll 0 2 2, .blockSet 0 1 2 1 32 3,
    .setLineWrap (-1)]

omit [Platform] in
theorem transcript_refines_scrollback_scrolled : let _ := samplePlatform
    let s := create 2 3 2 0
    let b := Op.editAll scrolledAway (.blank 2 1 2 (32, 0))
    ∃ t, Op.runAll scrolledAway s = .ok ⟨⟩ t ∧ t.mActiveTranscriptRows = b.history.length ∧
      t.mScreenRows = b.screen.length ∧
      (∀ row, t.InRange row → ∃ r, b.row? row = some r ∧ readRow row t = .ok r t) ∧
      ∀ row row', t.InRange row → t.InRange row' → row ≠ row' →
        (Op.trackAll scrolledAway s (.create 3)).ofRow t row ≠ none →
        (Op.trackAll scrolledAway s (.create 3)).ofRow t row ≠
          (Op.trackAll scrolledAway s (.create 3)).ofRow t row' := by
  let _ := samplePlatform
  have hops : Op.AllInRange scrolledAway (.blank 2 1 2 (32, 0)) := by
    refine ⟨?_, ?_, ?_, ?_, ?_, ?_, trivial⟩
    all_goals decide +kernel
  exact transcript_refines_scrollback (by decide) (by decide) (by decide) 0 hops

end Tracking

end UnicodeTranscript

end Kbox.Emulatorview
