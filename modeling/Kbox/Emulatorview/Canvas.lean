import Mathlib.Data.List.Forall2
import Kbox.Emulatorview.Palette
import Kbox.Emulatorview.RowReading
import Kbox.Emulatorview.StyleArrays
import Kbox.Framework.ArrayEdits

/-!
# The picture that a transcript shows

A canvas is a table of inks: the colours and the effect that every slot of the
transcript has, column by column.  It knows nothing of style words, of style rows that
are not allocated yet or of their three bytes to a column.  Strokes are the methods that
a screen is drawn with, each with the edit of the canvas that it stands for.
-/

namespace Kbox.Emulatorview

open Kbox.Framework
open Kbox.Framework.Edit (map_splice map_stretch)
open TerminalEmulator (InPalette)

/-! ## §1  Inks -/

structure Ink where
  fore : Int
  back : Int
  effect : BitVec 32
deriving DecidableEq, Repr

namespace Ink

/-- The style word of an ink. -/
def word (k : Ink) : Style := TextStyle.encode k.fore k.back k.effect

/-- What the renderer makes of a style word. -/
def ofWord (style : Style) : Ink where
  fore := TextStyle.decodeForeColor style
  back := TextStyle.decodeBackColor style
  effect := TextStyle.decodeEffect style

/-- Colours of the renderer's palette, and the six effect bits. -/
structure Valid (k : Ink) : Prop where
  fore : InPalette k.fore
  back : InPalette k.back
  effect : k.effect &&& 0x3f = k.effect

/-- The ink of a row that gets its styles along with its text. -/
def unset : Ink := ⟨0, 0, TextStyle.fxNormal⟩

/-- The default colours, without effects. -/
def normal : Ink := ⟨TextStyle.ciForeground, TextStyle.ciBackground, TextStyle.fxNormal⟩

theorem word_unset : unset.word = 0 := TerminalEmulator.zero_eq_encode.symm

theorem valid_unset : unset.Valid := ⟨by decide, by decide, rfl⟩

theorem valid_normal : normal.Valid := ⟨by decide, by decide, rfl⟩

theorem narrow_word (k : Ink) : TextStyle.narrow k.word = k.word :=
  TextStyle.narrow_encode _ _ _

/-- No colour leaks into another field. -/
theorem Valid.ofWord_word {k : Ink} (h : k.Valid) : ofWord k.word = k := by
  obtain ⟨f, b, e⟩ := k
  have hlen : TextStyle.ciColorLength = 259 := by decide
  have hfore := h.fore
  have hback := h.back
  have heffect := h.effect
  unfold InPalette at hfore hback
  unfold ofWord word
  rw [TextStyle.decodeForeColor_encode _ _ hfore.1 (by omega),
    TextStyle.decodeBackColor_encode _ _ hback.1 (by omega), TextStyle.decodeEffect_encode, heffect]

end Ink

/-! ## §2  Arrays of rows that correspond -/

section Corresponding

variable {α β : Type} {R : α → β → Prop} {oob oob' : Exn} {xs xs' : List α} {ys : List β}

theorem forall₂_getElem? (h : List.Forall₂ R xs ys) {i : Nat} {x : α} (hx : xs[i]? = some x) :
    ∃ y, ys[i]? = some y ∧ R x y := by
  induction h generalizing i with
  | nil => cases hx
  | @cons a b xs ys hab _ ih =>
      cases i with
      | zero =>
          cases hx
          exact ⟨b, rfl, hab⟩
      | succ i => exact ih hx

theorem forall₂_set_modify (h : List.Forall₂ R xs ys) {i : Nat} {x : α} {f : β → β}
    (hx : ∀ y, ys[i]? = some y → R x (f y)) : List.Forall₂ R (xs.set i x) (ys.modify i f) := by
  induction h generalizing i with
  | nil =>
      rw [List.set_nil, List.modify_nil]
      exact .nil
  | @cons a b xs ys hab hrest ih =>
      cases i with
      | zero => exact .cons (hx b rfl) hrest
      | succ i => exact .cons hab (ih fun y hy => hx y hy)

theorem forall₂_set (h : List.Forall₂ R xs ys) {i : Nat} {x : α} {y : β} (hxy : R x y) :
    List.Forall₂ R (xs.set i x) (ys.set i y) := by
  induction h generalizing i with
  | nil => exact .nil
  | @cons a b xs ys hab hrest ih =>
      cases i with
      | zero => exact .cons hxy hrest
      | succ i => exact .cons hab ih

theorem forall₂_arrayGet (h : List.Forall₂ R xs ys) {i : Int} {x : α}
    (hx : arrayGet oob xs i = .ok x) : ∃ y, arrayGet oob' ys i = .ok y ∧ R x y := by
  obtain ⟨hpos, hget⟩ := arrayGet_ok_iff.mp hx
  obtain ⟨y, hy, hxy⟩ := forall₂_getElem? h hget
  exact ⟨y, arrayGet_ok_iff.mpr ⟨hpos, hy⟩, hxy⟩

theorem forall₂_arraySet (h : List.Forall₂ R xs ys) {i : Int} {x : α} {y : β} (hxy : R x y)
    (hx : arraySet oob xs i x = .ok xs') :
    ∃ ys', arraySet oob' ys i y = .ok ys' ∧ List.Forall₂ R xs' ys' := by
  unfold arraySet at hx ⊢
  rw [← h.length_eq]
  by_cases hout : i < 0 ∨ xs.length ≤ i
  · rw [if_pos hout] at hx
    cases hx
  · rw [if_neg hout] at hx ⊢
    cases hx
    exact ⟨_, rfl, forall₂_set h hxy⟩

theorem forall₂_arraycopy (h : List.Forall₂ R xs ys) {src dst len : Int}
    (hx : arraycopy oob xs src xs dst len = .ok xs') :
    ∃ ys', arraycopy oob' ys src ys dst len = .ok ys' ∧ List.Forall₂ R xs' ys' := by
  unfold arraycopy at hx ⊢
  rw [← h.length_eq]
  by_cases hout : src < 0 ∨ dst < 0 ∨ len < 0 ∨ xs.length < src + len ∨ xs.length < dst + len
  · rw [if_pos hout] at hx
    cases hx
  · rw [if_neg hout] at hx ⊢
    cases hx
    have hpart := List.forall₂_take len.toNat (List.forall₂_drop src.toNat h)
    refine ⟨_, rfl, ?_⟩
    unfold splice
    rw [hpart.length_eq]
    exact List.rel_append (List.rel_append (List.forall₂_take _ h) hpart) (List.forall₂_drop _ h)

theorem forall₂_copyRowsInOrder {n src dst : Int} {order : List Nat}
    (h : List.Forall₂ R xs ys)
    (hx : UnicodeTranscript.copyRowsInOrder oob n src dst order xs = .ok xs') :
    ∃ ys', UnicodeTranscript.copyRowsInOrder oob' n src dst order ys = .ok ys' ∧
      List.Forall₂ R xs' ys' := by
  induction order generalizing xs ys with
  | nil =>
      cases hx
      exact ⟨ys, rfl, h⟩
  | cons i order ih =>
      obtain ⟨x, hget, hx⟩ := bind_ok_iff.mp hx
      obtain ⟨xs₁, hset, hx⟩ := bind_ok_iff.mp hx
      obtain ⟨y, hget', hxy⟩ := forall₂_arrayGet h hget
      obtain ⟨ys₁, hset', h₁⟩ := forall₂_arraySet h hxy hset
      obtain ⟨ys', hys', h'⟩ := ih h₁ hx
      exact ⟨ys', bind_ok_iff.mpr ⟨y, hget', bind_ok_iff.mpr ⟨ys₁, hset', hys'⟩⟩, h'⟩

theorem forall₂_copyRows {n src len shift : Int} (h : List.Forall₂ R xs ys)
    (hx : UnicodeTranscript.copyRows oob n xs src len shift = .ok xs') :
    ∃ ys', UnicodeTranscript.copyRows oob' n ys src len shift = .ok ys' ∧
      List.Forall₂ R xs' ys' := by
  unfold UnicodeTranscript.copyRows at hx ⊢
  simp only [] at hx ⊢
  generalize (if src + shift ≥ 0 then (src + shift) % n else n + src + shift) = dst at hx ⊢
  split_ifs at hx ⊢
  · exact forall₂_arraycopy h hx
  · exact forall₂_copyRowsInOrder h hx
  · exact forall₂_copyRowsInOrder h hx

end Corresponding

namespace UnicodeTranscript

/-! ## §3  Canvases and strokes -/

/-- The rows of all slots, and the ink of a row that is cleared by a copy. -/
structure Canvas where
  base : Ink
  rows : List (List Ink)
deriving DecidableEq, Repr

namespace Canvas

/-- The row of a slot changes. -/
def modifyRow (g : Canvas) (slot : Int) (f : List Ink → List Ink) : Canvas :=
  { g with rows := g.rows.modify slot.toNat f }

def row (g : Canvas) (slot : Int) : List Ink := g.rows[slot.toNat]?.getD []

theorem row_of {g : Canvas} {slot : Int} {a : List Ink} (h : g.rows[slot.toNat]? = some a) :
    g.row slot = a := by
  unfold row
  rw [h, Option.getD_some]

/-- Every ink of the canvas is in `P`. -/
structure Within (P : Ink → Prop) (g : Canvas) : Prop where
  base : P g.base
  rows : ∀ a ∈ g.rows, ∀ k ∈ a, P k

variable {P : Ink → Prop} {g : Canvas}

theorem Within.mono (h : g.Within P) {P' : Ink → Prop} (himp : ∀ k, P k → P' k) : g.Within P' :=
  ⟨himp _ h.base, fun a ha k hk => himp k (h.rows a ha k hk)⟩

theorem Within.row (h : g.Within P) {slot : Int} {k : Ink} (hk : k ∈ g.row slot) : P k := by
  cases hrow : g.rows[slot.toNat]? with
  | none =>
      unfold Canvas.row at hk
      rw [hrow] at hk
      cases hk
  | some a =>
      rw [row_of hrow] at hk
      exact h.rows a (List.mem_of_getElem? hrow) k hk

theorem Within.modifyRow (h : g.Within P) {slot : Int} {f : List Ink → List Ink}
    (hf : ∀ a ∈ g.rows, ∀ k ∈ f a, P k) : (g.modifyRow slot f).Within P where
  base := h.base
  rows := by
    intro a ha
    obtain ⟨i, hi⟩ := List.mem_iff_getElem?.mp ha
    rw [Canvas.modifyRow, List.getElem?_modify] at hi
    obtain ⟨b, hb, rfl⟩ := Option.map_eq_some_iff.mp hi
    have hmem := List.mem_of_getElem? hb
    split
    · exact hf b hmem
    · exact h.rows b hmem

end Canvas

/-- What `scroll` does to an array of rows, whatever the rows are: those around the region go
one slot further, the row that scrolls out goes to the first slot of the screen, and `fresh` to
the slot of the row that scrolls in. -/
def scrollRows {α : Type} (s : UnicodeTranscript) (topMargin bottomMargin : Int) (fresh : α)
    (rows : List α) : Except Exn (List α) :=
  let blankRow := (s.mScreenFirstRow + bottomMargin) % s.mTotalRows
  if topMargin = 0 ∧ bottomMargin = s.mScreenRows then
    arraySet (.arrayIndexOutOfBounds .mColor) rows blankRow fresh
  else do
    let scrolled ← arrayGet (.arrayIndexOutOfBounds .mColor) rows (s.internalRow topMargin)
    let rows ← copyRows (.arrayIndexOutOfBounds .mColor) s.mTotalRows rows s.mScreenFirstRow
      topMargin 1
    let rows ← copyRows (.arrayIndexOutOfBounds .mColor) s.mTotalRows rows
      (s.internalRow bottomMargin) (s.mScreenRows - bottomMargin) 1
    let rows ← arraySet (.arrayIndexOutOfBounds .mColor) rows s.mScreenFirstRow scrolled
    arraySet (.arrayIndexOutOfBounds .mColor) rows blankRow fresh

/-- The slots behind the screen, which it grows over. -/
def clearedRows (s : UnicodeTranscript) (n : Nat) (rows : List (List Ink)) : List (List Ink) :=
  (List.range n).foldl (fun rows i => rows.set
    ((s.mScreenFirstRow + s.mScreenRows + i) % s.mTotalRows)
    (List.replicate s.mColumns Ink.unset)) rows

variable [Platform]

/-- The methods that the screen is drawn with, from the smallest ones that write styles on, and
those that read rows on the way.  `clear` writes a blank in the default style, as the copy of a
row without text does in every column. -/
inductive Stroke where
  | set (column row codePoint : Int) (ink : Ink)
  | clear (column row : Int)
  | copyRow (sx sy w dx dy y : Int)
  | scroll (topMargin bottomMargin : Int) (ink : Ink)
  | setLineWrap (row : Int)
  | getLine (row x1 x2 : Int)
  | getLineColor (row x1 x2 : Int)
  | resize (columns rows cursorRow : Int)
  | create (columns totalRows screenRows : Nat) (ink : Ink)

namespace Stroke

def run : Stroke → TranscriptM Unit
  | set column row codePoint ink => setCharStyle column row codePoint ink.word
  | clear column row => do setCharStyle column row 32 (← get).mDefaultStyle
  | copyRow sx sy w dx dy y => UnicodeTranscript.copyRow sx sy w dx dy y
  | scroll topMargin bottomMargin ink => UnicodeTranscript.scroll topMargin bottomMargin ink.word
  | setLineWrap row => UnicodeTranscript.setLineWrap row
  | getLine row x1 x2 => do let _ ← UnicodeTranscript.getLine row x1 x2
  | getLineColor row x1 x2 => do let _ ← UnicodeTranscript.getLineColor row x1 x2
  | resize columns rows cursorRow => do let _ ← UnicodeTranscript.resize columns rows cursorRow
  | create columns totalRows screenRows ink =>
      MonadStateOf.set (UnicodeTranscript.create columns totalRows screenRows ink.word)

/-- The canvas behind a stroke that returns. -/
def edit (s : UnicodeTranscript) (g : Canvas) : Stroke → Canvas
  | set column row _ ink => g.modifyRow (s.internalRow row) fun a => a.set column.toNat ink
  | clear column row => g.modifyRow (s.internalRow row) fun a => a.set column.toNat g.base
  | copyRow sx sy w dx dy y => g.modifyRow (s.internalRow (dy + y)) fun a =>
      splice a dx.toNat (stretch (g.row (s.internalRow (sy + y))) sx.toNat w.toNat)
  | scroll topMargin bottomMargin ink => { g with
      rows := (s.scrollRows topMargin bottomMargin (List.replicate s.mColumns ink)
        g.rows).toOption.getD g.rows }
  | setLineWrap _ => g
  | getLine _ _ _ => g
  | getLineColor _ _ _ => g
  | resize columns rows _ =>
      let beyond := rows - s.mScreenRows - s.mActiveTranscriptRows
      if columns = s.mColumns ∧ rows ≤ s.mTotalRows ∧ 0 < beyond then
        { g with
          rows := s.clearedRows (s.mActiveTranscriptRows + (rows - s.mScreenRows)).toNat g.rows }
      else g
  | create columns totalRows _ ink =>
      ⟨ink, List.replicate totalRows (List.replicate columns Ink.unset)⟩

/-- A stroke that throws leaves the canvas alone. -/
def paint (s : UnicodeTranscript) (g : Canvas) (stroke : Stroke) : Canvas :=
  match stroke.run s with
  | .ok _ _ => stroke.edit s g
  | .error _ _ => g

end Stroke

/-- There is text in the row. -/
def HasText (s : UnicodeTranscript) (row : Int) : Prop :=
  ∃ line, arrayGet (Exn.arrayIndexOutOfBounds .mLines) s.mLines (s.internalRow row) =
    .ok (some line)

/-- The inks of a stroke are among `inks`.  A row without text is not copied but cleared, cell by
cell. -/
def Stroke.Takes (inks : Ink → Prop) (s : UnicodeTranscript) : Stroke → Prop
  | set _ _ _ ink => inks ink
  | copyRow _ sy _ _ _ y => s.HasText (sy + y)
  | scroll _ _ ink => inks ink
  | create _ _ _ ink => inks ink
  | _ => True

/-! ## §4  A transcript that shows a canvas -/

/-- A row of styles reads as a row of inks; a row without styles has style 0. -/
structure ShowsRow (columns : Nat) (color : Option StyleRow) (a : List Ink) : Prop where
  width : a.length = columns
  reads : (color.getD (StyleRow.create 0 columns)).Reads (a.map Ink.word)

structure Shows (g : Canvas) (s : UnicodeTranscript) : Prop where
  lines : s.mLines.length = s.mTotalRows
  colors : s.mColor.length = s.mTotalRows
  flags : s.mLineWrap.length = s.mTotalRows
  first : 0 < s.mTotalRows → s.mScreenFirstRow < s.mTotalRows
  base : s.mDefaultStyle = g.base.word
  rows : List.Forall₂ (ShowsRow s.mColumns) s.mColor g.rows

variable {g : Canvas} {s t : UnicodeTranscript}

omit [Platform] in
theorem reads_fresh (k : Ink) (columns : Nat) :
    ShowsRow columns (some (StyleRow.create k.word columns)) (List.replicate columns k) where
  width := List.length_replicate
  reads := by
    rw [List.map_replicate]
    exact StyleRow.reads_create k.narrow_word columns

omit [Platform] in
theorem reads_unset (columns : Nat) :
    ShowsRow columns none (List.replicate columns Ink.unset) where
  width := List.length_replicate
  reads := by
    rw [List.map_replicate, Ink.word_unset]
    exact StyleRow.reads_create rfl columns

omit [Platform] in
/-- A row of styles is replaced by one that reads as another row of inks. -/
theorem Shows.put (h : Shows g s) {slot : Int} {color : Option StyleRow}
    {f : List Ink → List Ink}
    (hcolor : ∀ a, g.rows[slot.toNat]? = some a → ShowsRow s.mColumns color (f a)) :
    Shows (g.modifyRow slot f) { s with mColor := s.mColor.set slot.toNat color } where
  lines := h.lines
  colors := List.length_set.trans h.colors
  flags := h.flags
  first := h.first
  base := h.base
  rows := forall₂_set_modify h.rows hcolor

omit [Platform] in
/-- The row still reads as the same inks. -/
theorem Shows.keep (h : Shows g s) {slot : Nat} {color : Option StyleRow}
    (hcolor : ∀ a, g.rows[slot]? = some a → ShowsRow s.mColumns color a) :
    Shows g { s with mColor := s.mColor.set slot color } := by
  have hput := @Shows.put _ _ h slot color id hcolor
  unfold Canvas.modifyRow at hput
  rw [List.modify_id] at hput
  exact hput

omit [Platform] in
/-- The inks of a slot. -/
theorem Shows.row (h : Shows g s) {slot : Int} {color : Option StyleRow}
    (hcolor : arrayGet (Exn.arrayIndexOutOfBounds .mColor) s.mColor slot = .ok color) :
    g.rows[slot.toNat]? = some (g.row slot) ∧ ShowsRow s.mColumns color (g.row slot) := by
  obtain ⟨a, ha, hrow⟩ := forall₂_getElem? h.rows (arrayGet_ok_iff.mp hcolor).2
  rw [Canvas.row_of ha]
  exact ⟨ha, hrow⟩

section Reading

omit [Platform]

theorem shows_setLine (i : Int) (line : Option Line) : Keeps (Shows g) (setLine i line) := by
  apply keeps_read
  intro s h
  simp only [wp_bind, wp_checked, wp_set]
  exact ⟨fun lines hset => { h with lines := (length_of_arraySet hset).trans h.lines },
    fun _ _ => h⟩

theorem shows_storeLineWrap (i : Int) (wrap : Bool) :
    Keeps (Shows g) (storeLineWrap i wrap) := by
  apply keeps_read
  intro s h
  simp only [wp_bind, wp_checked, wp_set]
  exact ⟨fun flags hset => { h with flags := (length_of_arraySet hset).trans h.flags },
    fun _ _ => h⟩

theorem shows_internalRow (row : Int) : Keeps (Shows g) (externalToInternalRow row) :=
  keeps_get_bind fun _ => keeps_throwIf.then (keeps_ite (fun _ => keeps_pure _) fun _ =>
    keeps_ite (fun _ => keeps_pure _) fun _ => keeps_pure _)

theorem shows_setLineWrap (row : Int) : Keeps (Shows g) (setLineWrap row) :=
  (shows_internalRow _).bind fun _ => shows_storeLineWrap _ _

/-- The temporary line is no row. -/
theorem shows_fillTmpLine (capacity : Int) (text : List JChar) (start length : Int) :
    Keeps (Shows g) (fillTmpLine capacity text start length) := by
  have htmp (tmp : Option (List JChar)) :
      Keeps (Shows g) (modify fun s => { s with tmpLine := tmp } : TranscriptM Unit) :=
    keeps_modify fun _ h => { h with }
  have halloc (length : Int) : Keeps (Shows g) (allocTmpLine length) :=
    keeps_throwIf.then ((htmp _).then (keeps_pure _))
  have htake (length : Int) : Keeps (Shows g) (takeTmpLine length) := by
    refine keeps_get_bind fun t => ?_
    cases t.tmpLine with
    | none => exact halloc length
    | some tmp => exact keeps_ite (fun _ => halloc length) fun _ => keeps_pure _
  refine (htake _).bind fun _ => (keeps_checked _).bind fun _ => ?_
  exact (keeps_checked _).bind fun _ => (htmp _).then (keeps_pure _)

theorem shows_getLine (row x1 x2 : Int) : Keeps (Shows g) (getLine row x1 x2) := by
  refine keeps_get_bind fun t => keeps_throwIf.then ((shows_internalRow _).bind fun r => ?_)
  refine Keeps.bind (keeps_get_bind fun _ => keeps_checked _) fun line => ?_
  rcases line with _ | text | line
  · exact keeps_pure _
  · refine keeps_ite (fun _ => keeps_pure _) fun _ => ?_
    exact (shows_fillTmpLine _ _ _ _).bind fun _ => keeps_pure _
  · refine (keeps_checked _).bind fun start => (keeps_checked _).bind fun stop => ?_
    exact (shows_fillTmpLine _ _ _ _).bind fun _ => keeps_pure _

/-- A row that is copied from may be allocated on the way, and reads as before. -/
theorem ShowsRow.copyTo_source {columns : Nat} {r dst r' dst' : StyleRow} {a : List Ink}
    {start offset len : Int} (h : ShowsRow columns (some r) a)
    (hcopy : r.copyTo dst start offset len = .ok (r', dst')) : ShowsRow columns (some r') a := by
  unfold StyleRow.copyTo at hcopy
  split_ifs at hcopy
  · cases hcopy
    exact h
  · obtain ⟨data, _, hcopy⟩ := bind_ok_iff.mp hcopy
    cases hcopy
    exact ⟨h.width, h.reads.ensureData⟩

theorem wp_colorSlot (h : Shows g s) (slot : Int) {Q : Option StyleRow → UnicodeTranscript → Prop}
    {E : Exn → UnicodeTranscript → Prop}
    (hQ : ∀ color, arrayGet (Exn.arrayIndexOutOfBounds .mColor) s.mColor slot = .ok color →
      ShowsRow s.mColumns color (g.row slot) → Q color s) (hE : ∀ e, E e s) :
    wp (colorAt slot) Q E s := by
  unfold colorAt
  rw [wp_bind, wp_get, wp_checked]
  exact ⟨fun color hcolor => hQ color hcolor (h.row hcolor).2, fun e _ => hE e⟩

/-- A row of styles is put back, and reads as before. -/
theorem wp_putBack (h : Shows g s) {slot : Int} {color : Option StyleRow}
    (hcolor : ShowsRow s.mColumns color (g.row slot)) :
    wp (setColor slot color) (fun _ => Shows g) (fun _ => Shows g) s := by
  unfold setColor
  simp only [wp_bind, wp_get, wp_checked, wp_set]
  refine ⟨fun colors hset => ?_, fun _ _ => h⟩
  unfold arraySet at hset
  split_ifs at hset
  cases hset
  refine h.keep fun a ha => ?_
  rw [@Canvas.row_of g slot a ha] at hcolor
  exact hcolor

theorem shows_getLineColor (row x1 x2 : Int) : Keeps (Shows g) (getLineColor row x1 x2) := by
  refine keeps_get_bind fun t => keeps_throwIf.then ((shows_internalRow _).bind fun r => ?_)
  intro s h
  rw [wp_bind]
  refine wp_colorSlot h r (fun color _ hrow => ?_) fun _ => h
  rcases color with _ | color
  · exact (wp_pure _ _ _ _).mpr h
  rw [wp_ite]
  refine ⟨fun _ => (wp_pure _ _ _ _).mpr h, fun _ => ?_⟩
  rw [wp_bind, wp_checked]
  refine ⟨fun copied hcopy => ?_, fun _ _ => h⟩
  show wp (do
    setColor r (some copied.1)
    modify fun s => { s with tmpColor := copied.2 }
    return some copied.2 : TranscriptM (Option StyleRow)) _ _ s
  rw [wp_bind]
  refine wp_mono (wp_putBack h (hrow.copyTo_source hcopy)) (fun _ u hu => ?_) fun _ _ hu => hu
  rw [wp_bind, wp_modify, wp_pure]
  exact { hu with }

theorem shows_allocateLine (r : Int) (line : Line) : Keeps (Shows g) (allocateLine r line) := by
  refine (shows_setLine _ _).then fun s h => ?_
  rw [wp_bind]
  refine wp_colorSlot h r (fun color _ hrow => ?_) fun _ => h
  rw [wp_bind, wp_get, wp_when]
  refine ⟨fun hnone => wp_putBack h ?_, fun _ => h⟩
  subst hnone
  exact ⟨hrow.width, hrow.reads⟩

end Reading

section Writing

theorem shows_setFull (column codePoint r : Int) (line : FullUnicodeLine) :
    Keeps (Shows g) (setChar.setFull column codePoint r line) := by
  intro s h
  have hput (line' : FullUnicodeLine) :
      Shows g { s with mLines := s.mLines.set r.toNat (some (.full line')) } :=
    { h with lines := List.length_set.trans h.lines }
  unfold setChar.setFull
  rw [wp_runOn]
  exact wp_mono (wp_true _ _) (fun _ line' _ => hput line') fun _ line' _ => hput line'

theorem shows_setChar (column row codePoint : Int) :
    Keeps (Shows g) (setChar column row codePoint) := by
  refine keeps_get_bind fun s => keeps_throwIf.then ((shows_internalRow _).bind fun r => ?_)
  refine Keeps.bind (keeps_get_bind fun _ => keeps_checked _) fun line => ?_
  refine (keeps_when fun _ => shows_allocateLine _ _).then ?_
  refine Keeps.bind (keeps_get_bind fun _ => keeps_checked _) fun line => ?_
  rcases line with _ | text | line
  · exact keeps_throw _
  · refine keeps_ite (fun _ => (keeps_checked _).bind fun _ => shows_setLine _ _) fun _ => ?_
    exact (shows_setLine _ _).then (shows_setFull _ _ _ _)
  · exact shows_setFull _ _ _ _

/-- `setChar` changes texts and styles, and returns for a column of the screen only. -/
theorem setChar_column (column row codePoint : Int) :
    wp (setChar column row codePoint) (fun _ _ => 0 ≤ column ∧ column < s.mColumns)
      (fun _ _ => True) s := by
  have hfull (r : Int) (line : FullUnicodeLine) (t : UnicodeTranscript) :
      wp (setChar.setFull column codePoint r line) (fun _ _ => 0 ≤ column)
        (fun _ _ => True) t := by
    unfold setChar.setFull FullUnicodeLine.setChar
    rw [wp_runOn, wp_bind, wp_get, wp_bind, wp_throwIf]
    refine ⟨fun _ => trivial, fun hin => ?_⟩
    exact wp_mono (wp_true _ _) (fun _ _ _ => by omega) fun _ _ _ => trivial
  unfold setChar
  rw [wp_bind, wp_get, wp_bind, wp_throwIf]
  refine ⟨fun _ => trivial, fun hin => ?_⟩
  have hrest {α : Type} {x : TranscriptM α} {f : α → TranscriptM Unit} {t : UnicodeTranscript}
      (hf : ∀ a u, wp (f a) (fun _ _ => 0 ≤ column) (fun _ _ => True) u) :
      wp (x >>= f) (fun _ _ => 0 ≤ column) (fun _ _ => True) t := by
    rw [wp_bind]
    exact wp_mono (wp_true _ _) (fun a u _ => hf a u) fun _ _ _ => trivial
  refine wp_mono (hrest fun r t => hrest fun line t => hrest fun _ t => hrest fun line t => ?_)
    (fun _ _ h => ⟨h, by omega⟩) fun _ _ h => h
  rcases line with _ | text | line
  · exact (wp_throw _ _ _ _).mpr trivial
  · rw [wp_ite]
    refine ⟨fun _ => ?_, fun _ => hrest fun _ u => hfull _ _ _⟩
    rw [wp_bind, wp_checked]
    refine ⟨fun text' hset => ?_, fun _ _ => trivial⟩
    unfold arraySet at hset
    split_ifs at hset with hout
    exact wp_mono (wp_true _ _) (fun _ _ _ => by omega) fun _ _ _ => trivial
  · exact hfull _ _ _

/-- Texts and styles change, and nothing else. -/
def SameSlots (s t : UnicodeTranscript) : Prop :=
  ∃ lines colors, t = { s with mLines := lines, mColor := colors }

omit [Platform] in
theorem SameSlots.internalRow (h : SameSlots s t) (row : Int) :
    t.internalRow row = s.internalRow row := by
  obtain ⟨_, _, rfl⟩ := h
  rfl

omit [Platform] in
theorem SameSlots.columns (h : SameSlots s t) : t.mColumns = s.mColumns := by
  obtain ⟨_, _, rfl⟩ := h
  rfl

omit [Platform] in
theorem slots_setLine (i : Int) (line : Option Line) : Keeps (SameSlots s) (setLine i line) := by
  apply keeps_read
  rintro _ ⟨lines, colors, rfl⟩
  simp only [wp_bind, wp_checked, wp_set]
  exact ⟨fun lines' _ => ⟨lines', colors, rfl⟩, fun _ _ => ⟨lines, colors, rfl⟩⟩

omit [Platform] in
theorem slots_setColor (i : Int) (color : Option StyleRow) :
    Keeps (SameSlots s) (setColor i color) := by
  apply keeps_read
  rintro _ ⟨lines, colors, rfl⟩
  simp only [wp_bind, wp_checked, wp_set]
  exact ⟨fun colors' _ => ⟨lines, colors', rfl⟩, fun _ _ => ⟨lines, colors, rfl⟩⟩

theorem slots_setChar (column row codePoint : Int) :
    Keeps (SameSlots s) (setChar column row codePoint) := by
  have hfull (r : Int) (line : FullUnicodeLine) :
      Keeps (SameSlots s) (setChar.setFull column codePoint r line) := by
    rintro _ ⟨lines, colors, rfl⟩
    unfold setChar.setFull
    rw [wp_runOn]
    exact wp_mono (wp_true _ _) (fun _ _ _ => ⟨_, _, rfl⟩) fun _ _ _ => ⟨_, _, rfl⟩
  have hline (r : Int) : Keeps (SameSlots s) (lineAt r) :=
    keeps_get_bind fun _ => keeps_checked _
  refine keeps_get_bind fun t => keeps_throwIf.then (Keeps.bind ?_ fun r => ?_)
  · exact keeps_get_bind fun _ => keeps_throwIf.then (keeps_ite (fun _ => keeps_pure _) fun _ =>
      keeps_ite (fun _ => keeps_pure _) fun _ => keeps_pure _)
  refine (hline r).bind fun line => Keeps.then (keeps_when fun _ => ?_) ?_
  · refine (slots_setLine _ _).then (Keeps.bind (keeps_get_bind fun _ => keeps_checked _) ?_)
    exact fun color => keeps_get_bind fun _ => keeps_when fun _ => slots_setColor _ _
  refine (hline r).bind fun line => ?_
  rcases line with _ | text | line
  · exact keeps_throw _
  · refine keeps_ite (fun _ => (keeps_checked _).bind fun _ => slots_setLine _ _) fun _ => ?_
    exact (slots_setLine _ _).then (hfull _ _)
  · exact hfull _ _

omit [Platform] in
/-- What a call does with the slot of its row. -/
theorem wp_internalRow {row : Int} {Q : Int → UnicodeTranscript → Prop}
    {E : Exn → UnicodeTranscript → Prop} (hQ : Q (s.internalRow row) s) (hE : ∀ e, E e s) :
    wp (externalToInternalRow row) Q E s := by
  have hrow := externalToInternalRow_eq s row
  by_cases hout : row < -s.mActiveTranscriptRows ∨ row > s.mScreenRows
  · rw [if_pos hout] at hrow
    exact (wp_of_error hrow).mpr (hE _)
  · rw [if_neg hout] at hrow
    exact (wp_of_ok hrow).mpr hQ

theorem setCharStyle_shows (h : Shows g s) (column row codePoint : Int) (k : Ink) :
    wp (setCharStyle column row codePoint k.word)
      (fun _ => Shows ((Stroke.set column row codePoint k).edit s g)) (fun _ => Shows g) s := by
  unfold setCharStyle
  rw [wp_bind]
  refine wp_mono (wp_and (wp_and (shows_setChar column row codePoint s h)
    (slots_setChar column row codePoint s ⟨_, _, rfl⟩)) (setChar_column column row codePoint))
    ?_ fun _ _ ht => ht.1.1
  rintro _ t ⟨⟨ht, hslots⟩, hcolumn⟩
  rw [← hslots.columns] at hcolumn
  rw [wp_bind]
  refine wp_internalRow ?_ fun _ => ht
  rw [hslots.internalRow, wp_bind]
  refine wp_colorSlot ht _ (fun color hget hrow => ?_) fun _ => ht
  rcases color with _ | color
  · exact (wp_throw _ _ _ _).mpr ht
  show wp (do
    let color ← (pure color : TranscriptM StyleRow)
    runOn _ (StyleRow.set column k.word) color) _ _ _
  rw [wp_bind, wp_pure, wp_runOn]
  obtain ⟨x, rfl⟩ := Int.eq_ofNat_of_zero_le hcolumn.1
  have hwidth := hrow.width
  have hlt : x < ((g.row (s.internalRow row)).map Ink.word).length := by
    rw [List.length_map]
    omega
  obtain ⟨color', hset, hreads⟩ := hrow.reads.set hlt k.narrow_word
  rw [Option.getD_some] at hset
  rw [wp_of_ok (ok_of_construct hset)]
  refine ht.put fun a ha => ?_
  rw [Canvas.row_of ha] at hreads hwidth
  refine ⟨List.length_set.trans hwidth, ?_⟩
  rw [List.map_set]
  exact hreads

omit [Platform] in
theorem ShowsRow.copyTo {columns : Nat} {r dst r' dst' : StyleRow} {a b : List Ink}
    {start offset len : Int} (h : ShowsRow columns (some r) a)
    (hdst : ShowsRow columns (some dst) b)
    (hcopy : r.copyTo dst start offset len = .ok (r', dst')) :
    ShowsRow columns (some r') a ∧
      ShowsRow columns (some dst') (splice b offset.toNat (stretch a start.toNat len.toNat)) := by
  have hreads : r.Reads (a.map Ink.word) := h.reads
  have hreads' : dst.Reads (b.map Ink.word) := hdst.reads
  have hwidth := h.width
  have hwidth' := hdst.width
  have hlen : (a.map Ink.word).length = (b.map Ink.word).length := by
    rw [List.length_map, List.length_map, hwidth, hwidth']
  have hbounds : 0 ≤ start ∧ 0 ≤ offset ∧ 0 ≤ len ∧ start + len ≤ columns ∧
      offset + len ≤ columns := by
    have hcolumns := hreads.holds.width
    have hdata := hreads.cells.1
    have hdata' := hreads'.cells.1
    rw [List.length_map] at hcolumns hdata hdata'
    unfold StyleRow.copyTo arraycopy at hcopy
    split_ifs at hcopy with hlazy hout
    · omega
    · cases hcopy
    · omega
  obtain ⟨h₁, h₂, h₃, hstart, hoffset⟩ := hbounds
  obtain ⟨i, rfl⟩ := Int.eq_ofNat_of_zero_le h₁
  obtain ⟨j, rfl⟩ := Int.eq_ofNat_of_zero_le h₂
  obtain ⟨n, rfl⟩ := Int.eq_ofNat_of_zero_le h₃
  obtain ⟨r₁, dst₁, hok, hsrc₁, hdst₁⟩ := hreads.copyTo hreads' hlen
    (show i + n ≤ (a.map Ink.word).length by rw [List.length_map]; omega)
    (show j + n ≤ (a.map Ink.word).length by rw [List.length_map]; omega)
  cases hok.symm.trans hcopy
  refine ⟨⟨hwidth, hsrc₁⟩, ?_, ?_⟩
  · exact (length_splice_stretch (by omega) (by omega)).trans hwidth'
  · rw [map_splice, map_stretch]
    exact hdst₁

omit [Platform] in
theorem setColor_of {slot : Int} {before color : Option StyleRow}
    (hget : arrayGet (Exn.arrayIndexOutOfBounds .mColor) s.mColor slot = .ok before) :
    setColor slot color s = .ok ⟨⟩ { s with mColor := s.mColor.set slot.toNat color } := by
  obtain ⟨hpos, hget⟩ := arrayGet_ok_iff.mp hget
  have hlt := (List.getElem?_eq_some_iff.mp hget).1
  have hset : arraySet (Exn.arrayIndexOutOfBounds .mColor) s.mColor slot color =
      .ok (s.mColor.set slot.toNat color) := by
    unfold arraySet
    rw [if_neg (by omega)]
  simp only [setColor, bind, EStateM.bind, get_apply, hset]
  rfl

omit [Platform] in
theorem copyColor_shows (h : Shows g s) (srcRow sx dstRow dx w : Int) :
    wp (copyColor srcRow sx dstRow dx w)
      (fun _ => Shows (g.modifyRow dstRow fun a =>
        splice a dx.toNat (stretch (g.row srcRow) sx.toNat w.toNat)))
      (fun _ => Shows g) s := by
  unfold copyColor
  rw [wp_bind]
  refine wp_colorSlot h srcRow (fun src hsrc hrow => ?_) fun _ => h
  rcases src with _ | src
  · rw [wp_bind]
    exact (wp_throw _ _ _ _).mpr h
  rw [wp_bind]
  refine (wp_pure _ _ _ _).mpr ?_
  rw [wp_bind]
  refine wp_colorSlot h dstRow (fun dst hdst hrow' => ?_) fun _ => h
  rcases dst with _ | dst
  · rw [wp_bind]
    exact (wp_throw _ _ _ _).mpr h
  rw [wp_bind]
  refine (wp_pure _ _ _ _).mpr ?_
  rw [wp_bind, wp_checked]
  refine ⟨fun copied hcopy => ?_, fun _ _ => h⟩
  obtain ⟨hsource, hcopied⟩ := hrow.copyTo hrow' hcopy
  have hkept : Shows g { s with mColor := s.mColor.set srcRow.toNat (some copied.1) } :=
    h.keep fun a ha => by rw [← Canvas.row_of ha]; exact hsource
  have hagain : ∃ before, arrayGet (Exn.arrayIndexOutOfBounds .mColor)
      (s.mColor.set srcRow.toNat (some copied.1)) dstRow = .ok before := by
    obtain ⟨hpos, hget⟩ := arrayGet_ok_iff.mp hdst
    have hlt := (List.getElem?_eq_some_iff.mp hget).1
    exact ⟨_, arrayGet_ok_iff.mpr ⟨hpos, List.getElem?_eq_getElem (by rwa [List.length_set])⟩⟩
  obtain ⟨before, hagain⟩ := hagain
  show wp (do
    setColor srcRow (some copied.1)
    setColor dstRow (some copied.2) : TranscriptM Unit) _ _ s
  rw [wp_bind, wp_of_ok (setColor_of hsrc)]
  rw [wp_of_ok (setColor_of hagain)]
  exact hkept.put fun a ha => by rw [← Canvas.row_of ha]; exact hcopied

theorem shows_copyChars (dx extDstRow : Int) (chars : List JChar) (cHigh : JChar) (x : Int) :
    Keeps (Shows g) (copyChars dx extDstRow chars cHigh x) := by
  induction chars generalizing cHigh x with
  | nil => exact keeps_pure _
  | cons c rest ih =>
      refine keeps_get_bind fun s => keeps_ite (fun _ => keeps_pure _) fun _ => ?_
      refine keeps_ite (fun _ => ih _ _) fun _ => ?_
      exact (shows_setChar _ _ _).then (ih _ _)

omit [Platform] in
/-- A row with text is read as text. -/
theorem getLine_of_hasText {row : Int} (h : s.HasText row) (x1 x2 : Int) :
    wp (getLine row x1 x2) (fun text _ => text ≠ none) (fun _ _ => True) s := by
  obtain ⟨line, hline⟩ := h
  unfold getLine
  rw [wp_bind, wp_get, wp_bind, wp_throwIf]
  refine ⟨fun _ => trivial, fun _ => ?_⟩
  rw [wp_bind]
  refine wp_internalRow ?_ fun _ => trivial
  rw [wp_bind, wp_of_ok (lineAt_of hline)]
  have hfill (capacity : Int) (text : List JChar) (start length : Int) (t : UnicodeTranscript) :
      wp (do return some (← fillTmpLine capacity text start length))
        (fun (text : Option (List JChar)) _ => text ≠ none) (fun _ _ => True) t := by
    rw [wp_bind]
    exact wp_mono (wp_true _ _) (fun _ _ _ => (wp_pure _ _ _ _).mpr nofun) fun _ _ _ => trivial
  cases line with
  | basic text =>
      show wp (if x1 = 0 ∧ x2 = (s.mColumns : Int) then _ else _) _ _ _
      rw [wp_ite]
      exact ⟨fun _ => (wp_pure _ _ _ _).mpr nofun, fun _ => hfill _ _ _ _ _⟩
  | full line =>
      show wp (do
        let start ← checked (line.findStartOfColumn x1)
        let stop ← checked (if x2 < (s.mColumns : Int) then line.findStartOfColumn x2
          else line.getSpaceUsed)
        return some (← fillTmpLine (stop - start + 1) line.mText start (stop - start))) _ _ _
      simp only [wp_bind, wp_checked]
      exact ⟨fun _ _ => ⟨fun _ _ => (wp_bind _ _ _ _ _).mp (hfill _ _ _ _ _),
        fun _ _ => trivial⟩, fun _ _ => trivial⟩

theorem copyRow_shows (h : Shows g s) (sx sy w dx dy y : Int) (htext : s.HasText (sy + y)) :
    wp (copyRow sx sy w dx dy y)
      (fun _ => Shows ((Stroke.copyRow sx sy w dx dy y).edit s g)) (fun _ => Shows g) s := by
  unfold copyRow
  rw [wp_bind]
  refine wp_internalRow ?_ fun _ => h
  rw [wp_bind]
  refine wp_internalRow ?_ fun _ => h
  obtain ⟨line, hline⟩ := id htext
  rw [wp_bind, wp_of_ok (lineAt_of hline), wp_bind]
  unfold lineAt
  rw [wp_bind, wp_get, wp_checked]
  refine ⟨fun dst _ => ?_, fun _ _ => h⟩
  have hslow {f : Option (List JChar) → TranscriptM Unit} (hsome : ∀ tmp, f (some tmp) = (do
        copyChars dx (dy + y) tmp 0 0
        copyColor (s.internalRow (sy + y)) sx (s.internalRow (dy + y)) dx w)) :
      wp (getLine (sy + y) sx (sx + w) >>= f)
        (fun _ => Shows ((Stroke.copyRow sx sy w dx dy y).edit s g)) (fun _ => Shows g) s := by
    rw [wp_bind]
    refine wp_mono (wp_and (shows_getLine _ _ _ s h) (getLine_of_hasText htext _ _)) ?_
      fun _ _ ht => ht.1
    rintro (_ | tmp) t ⟨ht, hnone⟩
    · exact absurd rfl hnone
    · rw [hsome, wp_bind]
      exact wp_mono (shows_copyChars _ _ _ _ _ t ht) (fun _ u hu => copyColor_shows hu _ _ _ _ _)
        fun _ _ hu => hu
  rcases line with text | line
  · rcases dst with _ | text' | line'
    · exact hslow fun _ => rfl
    · -- both rows are basic
      rw [wp_bind, wp_checked]
      refine ⟨fun copied _ => ?_, fun _ _ => h⟩
      rw [wp_bind]
      exact wp_mono (shows_setLine _ _ s h) (fun _ u hu => copyColor_shows hu _ _ _ _ _)
        fun _ _ hu => hu
    · exact hslow fun _ => rfl
  · exact hslow fun _ => rfl

end Writing

end UnicodeTranscript

end Kbox.Emulatorview
