import Kbox.Emulatorview.InkedRuns
import Kbox.Emulatorview.SamplePlatform

/-!
# Colour indices stay in range

The colours of an emulator are indices of the renderer's palette, and so are those of every
style on the screen and in the history, as long as SGR is not told to take a background from
outside of it.  A cell decodes to the colours and the effect that it was drawn in, wherever it
has been copied, scrolled or resized to since.
-/

namespace Kbox.Emulatorview

open Kbox.Framework

namespace UnicodeTranscript

/-- The style of a cell, as the renderer and the reader of the transcript get it. -/
def HasStyle (s : UnicodeTranscript) (row column : Int) (style : Style) : Prop :=
  ∃ color, s.HasColor row color ∧ color.get column = .ok style

variable {P : Style → Prop} {columns totalRows screenRows : Nat} {s : UnicodeTranscript}

theorem Holds.of_hasStyle (h : s.Holds P columns totalRows screenRows) {row column : Int}
    {style : Style} (hstyle : s.HasStyle row column style) : P style := by
  obtain ⟨color, hcolor, hget⟩ := hstyle
  exact (h.styles color (mem_of_arrayGet hcolor.slot)).of_get hget

/-- The ink that a canvas has where the transcript has the cell. -/
def inkAt (g : Canvas) (s : UnicodeTranscript) (row : Int) (column : Nat) : Option Ink :=
  (g.row (s.internalRow row))[column]?

/-- Cells decode to the inks of the canvas. -/
def CellsOn (g : Canvas) (s : UnicodeTranscript) : Prop :=
  ∀ (row : Int) (column : Nat) (style : Style), column < s.mColumns →
    s.HasStyle row column style → inkAt g s row column = some (Ink.ofWord style)

theorem Shows.cellsOn {g : Canvas} (h : Shows g s) (hvalid : g.Within Ink.Valid) : CellsOn g s := by
  rintro row column style hcolumn ⟨color, hcolor, hget⟩
  have hrow := (h.row hcolor.slot).2
  have hlt : column < (g.row (s.internalRow row)).length := by
    rw [hrow.width]
    exact hcolumn
  have hreads : color.Reads ((g.row (s.internalRow row)).map Ink.word) := hrow.reads
  have hread := hreads.get column (g.row (s.internalRow row))[column].word
    (by rw [List.getElem?_map, List.getElem?_eq_getElem hlt]; rfl)
  cases hget.symm.trans hread
  unfold inkAt
  rw [(hvalid.row (List.getElem_mem hlt)).ofWord_word, List.getElem?_eq_getElem hlt]

end UnicodeTranscript

namespace TerminalEmulator

open UnicodeTranscript (Canvas Shows CellsOn TakesAll draw paintAll Sketched)

variable [Platform]

/-- Colours are indices of the palette, the current ones and those of every cell. -/
structure ColoursInPalette (s : TerminalEmulator) : Prop where
  fore : InPalette s.mForeColor
  back : InPalette s.mBackColor
  cells : ∀ row column style, s.mScreen.mData.HasStyle row column style →
    InPalette (TextStyle.decodeForeColor style) ∧ InPalette (TextStyle.decodeBackColor style)

/-- The inks that a call draws with on a canvas.  A byte takes the current one; a resize may have
to draw the transcript again, in the inks that it has. -/
def Call.Uses : Call → TerminalEmulator → Canvas → Ink → Prop
  | .byte _, s, _, k => k = s.ink
  | .updateSize _ _, s, g, k => k = s.ink ∨ k = Ink.unset ∨ k = g.base ∨ ∃ a ∈ g.rows, k ∈ a
  | .reset, s, _, k => k = s.resetInk
  | .setDefaultUTF8Mode _, _, _, _ => False

/-- Every call of the run edits the canvas with strokes in the inks of its own, and in every state
on the way the cells decode to the inks of the canvas. -/
def DrawnAlong : List Call → TerminalEmulator → Canvas → Prop
  | [], s, g => CellsOn g s.mScreen.mData
  | call :: calls, s, g => CellsOn g s.mScreen.mData ∧
      ∃ strokes, TakesAll (call.Uses s g) strokes s.mScreen.mData ∧
        draw strokes s.mScreen.mData = (after call.body s).mScreen.mData ∧
        DrawnAlong calls (after call.body s) (paintAll strokes s.mScreen.mData g)

omit [Platform] in
theorem decode_encode {f b : Int} (e : BitVec 32) (hf : InPalette f) (hb : InPalette b) :
    TextStyle.decodeForeColor (TextStyle.encode f b e) = f ∧
      TextStyle.decodeBackColor (TextStyle.encode f b e) = b := by
  have hlen : TextStyle.ciColorLength = 259 := by decide
  unfold InPalette at hf hb
  exact ⟨TextStyle.decodeForeColor_encode b e hf.1 (by omega),
    TextStyle.decodeBackColor_encode f e hb.1 (by omega)⟩

variable {totalRows : Nat} {s : TerminalEmulator} {g : Canvas}

omit [Platform] in
theorem Painted.coloursInPalette (h : Painted Palette.renderer totalRows s) :
    ColoursInPalette s := by
  obtain ⟨columns, screenRows, _, hscreen⟩ := h.screen
  refine ⟨h.fore, h.back, fun row column style hstyle => ?_⟩
  obtain ⟨f, b, e, hf, hb, _, rfl⟩ := hscreen.data.of_hasStyle hstyle
  obtain ⟨hfore, hback⟩ := decode_encode e hf hb
  rw [hfore, hback]
  exact ⟨hf, hb⟩

omit [Platform] in
/-- The inks of a call are valid on a canvas of valid inks. -/
theorem uses_valid (h : Painted Palette.renderer totalRows s) (hvalid : g.Within Ink.Valid)
    {call : Call} {k : Ink} (hk : call.Uses s g k) : k.Valid := by
  have hink : s.ink.Valid := ⟨h.fore, h.back, h.effect⟩
  cases call with
  | byte b =>
      cases hk
      exact hink
  | updateSize columns rows =>
      rcases hk with rfl | rfl | rfl | ⟨a, ha, hk⟩
      · exact hink
      · exact Ink.valid_unset
      · exact hvalid.base
      · exact hvalid.rows a ha k hk
  | reset =>
      cases hk
      exact ⟨h.defaultFore, h.defaultBack, h.effect⟩
  | setDefaultUTF8Mode utf8 => exact hk.elim

/-- **A call draws with its own inks.** -/
theorem sketched_call (h : Painted Palette.renderer totalRows s) (hshows : Shows g s.mScreen.mData)
    (call : Call) :
    Sketched (call.Uses s g) s.mScreen.mData g (after call.body s).mScreen.mData := by
  have hdrawn : Traced (call.Uses s g) s.mScreen.mData g s := Sketched.refl hshows
  cases call with
  | byte b => exact after_of_wp (traced_process b ⟨hdrawn, rfl, rfl⟩)
  | updateSize columns rows =>
      refine after_of_wp (traced_updateSize columns rows ⟨hdrawn, rfl, Or.inl rfl⟩ h
        (Or.inr (Or.inl rfl)) ⟨?_, fun a ha k hk => ?_⟩)
      · exact Or.inr (Or.inr (Or.inl rfl))
      · exact Or.inr (Or.inr (Or.inr ⟨a, ha, hk⟩))
  | reset => exact after_of_wp (traced_reset hdrawn rfl)
  | setDefaultUTF8Mode utf8 => exact (traced_setDefaultUTF8Mode utf8).after hdrawn

theorem drawnAlong_run {calls : List Call} (h : Painted Palette.renderer totalRows s)
    (hcalls : RunMeets (Call.StaysIn Palette.renderer) calls s) (hshows : Shows g s.mScreen.mData)
    (hvalid : g.Within Ink.Valid) : DrawnAlong calls s g := by
  induction calls generalizing s g with
  | nil => exact hshows.cellsOn hvalid
  | cons call calls ih =>
      obtain ⟨strokes, htakes, hdraw, hshows'⟩ := sketched_call h hshows call
      refine ⟨hshows.cellsOn hvalid, strokes, htakes, hdraw, ?_⟩
      exact ih (painted_call h hcalls.1) hcalls.2 hshows'
        (hvalid.paintAll Ink.valid_unset (htakes.mono fun k hk => uses_valid h hvalid hk))

/-- A canvas that nothing is drawn on. -/
def Blank (g : Canvas) : Prop := g.Within fun k => k = Ink.normal ∨ k = Ink.unset

theorem blank_create {columns rows : Nat} (h : create columns totalRows rows = .ok s) :
    ∃ g, Blank g ∧ Shows g s.mScreen.mData := by
  obtain ⟨screen, hscreen, h⟩ := bind_ok_iff.mp h
  have hnone : Shows ⟨Ink.unset, []⟩ (UnicodeTranscript.create 0 0 0 0) := by
    rw [← Ink.word_unset]
    exact UnicodeTranscript.shows_create 0 0 0 Ink.unset
  have hstyle : Ink.normal.word = TextStyle.kNormalTextStyle := rfl
  have hinit : Keeps (TranscriptScreen.Sketched (fun k => k = Ink.normal ∨ k = Ink.unset)
      (UnicodeTranscript.create 0 0 0 0) ⟨Ink.unset, []⟩)
      (TranscriptScreen.init columns totalRows rows TextStyle.kNormalTextStyle) := by
    rw [← hstyle]
    exact TranscriptScreen.sketched_init _ _ _ (Or.inl rfl)
  have hstart : TranscriptScreen.Sketched (fun k => k = Ink.normal ∨ k = Ink.unset)
      (UnicodeTranscript.create 0 0 0 0) ⟨Ink.unset, []⟩
      ⟨0, 0, 0, UnicodeTranscript.create 0 0 0 0⟩ := Sketched.refl hnone
  have hnew := of_construct hscreen (hinit _ hstart)
  have hreset : Traced (fun k => k = Ink.normal ∨ k = Ink.unset) (UnicodeTranscript.create 0 0 0 0)
      ⟨Ink.unset, []⟩ s := of_construct h (traced_reset hnew (Or.inl rfl))
  obtain ⟨g, hshows, hwithin⟩ := hreset.within (Or.inr rfl) ⟨Or.inr rfl, fun a ha => by cases ha⟩
  exact ⟨g, hwithin, hshows⟩

/-- `ESC [ 48 ; 5 ; 17 m A ESC [ m`, and two line feeds. -/
def blueBackground : List Call :=
  [0x1b, 0x5b, 0x34, 0x38, 0x3b, 0x35, 0x3b, 0x31, 0x37, 0x6d, 0x41, 0x1b, 0x5b, 0x6d,
    0x0a, 0x0a].map .byte

/-- The styles of the row with the `A`, which has scrolled into the history. -/
def blueRow : StyleRow := ⟨0, 2, some [0x11, 0, 2, 1, 1, 2]⟩

/-- `ESC [ 48 ; 5 ; 300 m` -/
def noBackground : List Call :=
  [0x1b, 0x5b, 0x34, 0x38, 0x3b, 0x35, 0x3b, 0x33, 0x30, 0x30, 0x6d].map .byte

end TerminalEmulator

end Kbox.Emulatorview
