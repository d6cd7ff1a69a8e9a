import Kbox.Emulatorview.ProcessBytes
import Kbox.Emulatorview.TranscriptShape

/-!
# Colours and effects along a run

A palette says which colours, effects and styles there may be.  Every call of
the session stays within it, apart from SGR, which takes over a 256-colour
background before it is checked: there the arguments have to be in the palette
to begin with.
-/

namespace Kbox.Emulatorview

open Kbox.Framework

namespace TerminalEmulator

/-! ## §1  Palettes -/

structure Palette where
  Color : Int → Prop
  Effect : BitVec 32 → Prop
  Style : Style → Prop
  valid : ∀ {c}, isValidColor c → Color c
  normal : Effect TextStyle.fxNormal
  add : ∀ {e fx : BitVec 32}, fx &&& 0x3f = fx → Effect e → Effect (e ||| fx)
  remove : ∀ {e fx : BitVec 32}, Effect e → Effect (e &&& fx)
  zero : Style 0
  encode : ∀ {f b e}, Color f → Color b → Effect e → Style (TextStyle.encode f b e)
  narrow : ∀ s, Style s → Style (TextStyle.narrow s)

/-- Anything goes. -/
def Palette.any : Palette where
  Color _ := True
  Effect _ := True
  Style _ := True
  valid _ := trivial
  normal := trivial
  add _ _ := trivial
  remove _ := trivial
  zero := trivial
  encode _ _ _ := trivial
  narrow _ _ := trivial

/-- An index of the renderer's palette. -/
def InPalette (c : Int) : Prop := 0 ≤ c ∧ c < TextStyle.ciColorLength

instance (c : Int) : Decidable (InPalette c) := by unfold InPalette; infer_instance

theorem isValidColor_iff {c : Int} : isValidColor c = true ↔ InPalette c := by
  simp only [isValidColor, InPalette, decide_eq_true_eq]

theorem zero_eq_encode : (0 : Style) = TextStyle.encode 0 0 TextStyle.fxNormal := by decide

/-- The palette of the renderer, and the six effect bits. -/
def Palette.renderer : Palette where
  Color := InPalette
  Effect e := e &&& 0x3f = e
  Style s := ∃ f b e, InPalette f ∧ InPalette b ∧ e &&& 0x3f = e ∧ s = TextStyle.encode f b e
  valid := isValidColor_iff.mp
  normal := rfl
  add := by
    intro e fx hfx he
    rw [BitVec.and_comm, BitVec.and_or_distrib_left, BitVec.and_comm _ e, BitVec.and_comm _ fx,
      he, hfx]
  remove := by
    intro e fx he
    rw [BitVec.and_assoc, BitVec.and_comm fx, ← BitVec.and_assoc, he]
  zero := ⟨0, 0, TextStyle.fxNormal, ⟨by decide, by decide⟩, ⟨by decide, by decide⟩, rfl,
    zero_eq_encode⟩
  encode hf hb he := ⟨_, _, _, hf, hb, he, rfl⟩
  narrow := by
    rintro _ ⟨f, b, e, hf, hb, he, rfl⟩
    exact ⟨f, b, e, hf, hb, he, TextStyle.narrow_encode f b e⟩

/-- What an emulator within a palette keeps. -/
structure Painted (pal : Palette) (totalRows : Nat) (s : TerminalEmulator) : Prop where
  screen : ∃ columns screenRows, 0 < columns ∧
    s.mScreen.Holds pal.Style columns totalRows screenRows
  fore : pal.Color s.mForeColor
  back : pal.Color s.mBackColor
  defaultFore : pal.Color s.mDefaultForeColor
  defaultBack : pal.Color s.mDefaultBackColor
  effect : pal.Effect s.mEffect
  savedEffect : pal.Effect s.mSavedEffect

variable {pal : Palette} {totalRows : Nat} {s : TerminalEmulator}

theorem Painted.style (h : Painted pal totalRows s) : pal.Style s.getStyle :=
  pal.encode h.fore h.back h.effect

/-! ## §2  Drawing -/

/-- A call on the screen that keeps its shape. -/
theorem keeps_onScreen {α : Type} {x : ScreenM α}
    (hx : ∀ columns screenRows,
      Keeps (TranscriptScreen.Holds pal.Style columns totalRows screenRows) x) :
    Keeps (Painted pal totalRows) (onScreen x) := by
  intro s h
  obtain ⟨columns, screenRows, hpos, hscreen⟩ := h.screen
  unfold onScreen
  rw [wp_onField]
  exact wp_mono (hx columns screenRows _ hscreen)
    (fun _ _ ht => { h with screen := ⟨columns, screenRows, hpos, ht⟩ })
    fun _ _ ht => { h with screen := ⟨columns, screenRows, hpos, ht⟩ }

theorem keeps_setCursorRow (row : Int) : Keeps (Painted pal totalRows) (setCursorRow row) :=
  keeps_modify fun _ h => { h with }

theorem keeps_setCursorCol (col : Int) : Keeps (Painted pal totalRows) (setCursorCol col) :=
  keeps_modify fun _ h => { h with }

theorem keeps_setCursorRowCol (row col : Int) :
    Keeps (Painted pal totalRows) (setCursorRowCol row col) :=
  keeps_modify fun _ h => { h with }

theorem keeps_setCursorPosition (x y : Int) :
    Keeps (Painted pal totalRows) (setCursorPosition x y) :=
  keeps_get_bind fun _ => keeps_setCursorRowCol _ _

theorem keeps_setTabStop (i : Int) (value : Bool) :
    Keeps (Painted pal totalRows) (setTabStop i value) := by
  apply keeps_read
  intro s h
  simp only [wp_bind, wp_checked, wp_set]
  exact ⟨fun _ _ => { h with }, fun _ _ => h⟩

theorem keeps_scroll : Keeps (Painted pal totalRows) scroll := by
  refine Keeps.then (keeps_modify fun _ h => { h with }) (keeps_read fun s h => ?_)
  exact keeps_onScreen (fun _ _ => TranscriptScreen.keeps_onData
    (UnicodeTranscript.keeps_scroll _ _ h.style)) s h

theorem keeps_doLinefeed : Keeps (Painted pal totalRows) doLinefeed :=
  keeps_get_bind fun _ => keeps_ite (fun _ => keeps_scroll.then (keeps_setCursorRow _))
    fun _ => keeps_setCursorRow _

variable [Platform]

theorem keeps_blockClear (sx sy w h : Int) :
    Keeps (Painted pal totalRows) (blockClear sx sy w h) :=
  keeps_read fun s hs => keeps_onScreen
    (fun _ _ => TranscriptScreen.keeps_blockSet pal.zero pal.narrow _ _ _ _ _ hs.style) s hs

theorem keeps_copyOnScreen (sx sy w h dx dy : Int) :
    Keeps (Painted pal totalRows) (onScreen (TranscriptScreen.blockCopy sx sy w h dx dy)) :=
  keeps_onScreen fun _ _ => TranscriptScreen.keeps_blockCopy pal.zero pal.narrow _ _ _ _ _ _

theorem keeps_setOnScreen (x y c : Int) {style : Style} (hstyle : pal.Style style) :
    Keeps (Painted pal totalRows) (onScreen (TranscriptScreen.set x y c style)) :=
  keeps_onScreen fun _ _ => TranscriptScreen.keeps_set pal.zero pal.narrow _ _ _ hstyle

omit [Platform] in
theorem keeps_wrapCursor (width : Int) : Keeps (Painted pal totalRows) (wrapCursor width) := by
  refine keeps_get_bind fun s => keeps_ite (fun _ => ?_) fun _ => keeps_pure _
  refine Keeps.then (keeps_onScreen fun _ _ => TranscriptScreen.keeps_onData
    (UnicodeTranscript.keeps_setLineWrap _)) ?_
  refine Keeps.then (keeps_modify fun _ h => { h with }) ?_
  exact keeps_ite (fun _ => keeps_modify fun _ h => { h with }) fun _ => keeps_scroll

theorem keeps_moveRight (width : Int) : Keeps (Painted pal totalRows) (moveRight width) :=
  keeps_get_bind fun _ => keeps_ite (fun _ => keeps_copyOnScreen _ _ _ _ _ _) fun _ => keeps_pure _

theorem keeps_placeChar (c : Int) {style : Style} (hstyle : pal.Style style) (width : Int) :
    Keeps (Painted pal totalRows) (placeChar c style width) := by
  refine keeps_get_bind fun s => keeps_ite (fun _ => keeps_ite (fun _ => ?_) fun _ => ?_) fun _ => ?_
  · exact keeps_setOnScreen _ _ _ hstyle
  · exact keeps_setOnScreen _ _ _ hstyle
  · exact (keeps_setOnScreen _ _ _ hstyle).then (keeps_modify fun _ h => { h with })

theorem keeps_emitStyled (c : Int) {style : Style} (hstyle : pal.Style style) :
    Keeps (Painted pal totalRows) (emitStyled c style) := by
  refine keeps_get_bind fun s => ?_
  refine (keeps_when fun _ => keeps_wrapCursor _).then (keeps_get_bind fun s₁ => ?_)
  refine (keeps_when fun _ => keeps_moveRight _).then ?_
  exact (keeps_placeChar c hstyle _).then (keeps_modify fun _ h => { h with })

theorem keeps_emit (c : Int) : Keeps (Painted pal totalRows) (emit c) :=
  keeps_read fun s h => keeps_emitStyled c h.style s h

theorem keeps_emitByte (b : JByte) : Keeps (Painted pal totalRows) (emitByte b) :=
  keeps_get_bind fun _ => keeps_ite (fun _ => keeps_throwIf.then (keeps_emit _))
    fun _ => keeps_emit _

theorem keeps_emitChars (c : List JChar) : Keeps (Painted pal totalRows) (emitChars c) := by
  refine (keeps_checked _).bind fun c₀ => keeps_ite (fun _ => ?_) fun _ => keeps_emit _
  exact (keeps_checked _).bind fun c₁ => keeps_emit _

theorem keeps_emitText {style : Style} (hstyle : pal.Style style) (c : List JChar) :
    Keeps (Painted pal totalRows) (emitText style c) := by
  fun_induction emitText style c with
  | case1 => exact keeps_pure _
  | case2 => exact keeps_pure _
  | case3 => exact keeps_throw _
  | case4 c _ _ cLow rest ih => exact (keeps_emitStyled _ hstyle).then ih
  | case5 c rest _ _ ih => exact (keeps_emitStyled _ hstyle).then ih

/-! ## §3  Escape sequences -/

section Sequences

omit [Platform]

theorem keeps_finishSequence : Keeps (Painted pal totalRows) finishSequence :=
  keeps_modify fun _ h => { h with }

theorem keeps_continueSequenceIn (state : EscapeState) :
    Keeps (Painted pal totalRows) (continueSequenceIn state) :=
  keeps_modify fun _ h => { h with }

theorem keeps_startEscapeSequence (state : EscapeState) :
    Keeps (Painted pal totalRows) (startEscapeSequence state) :=
  keeps_modify fun _ h => { h with }

theorem keeps_parseArg (b : JByte) : Keeps (Painted pal totalRows) (parseArg b) := by
  refine keeps_ite (fun _ => ?_) fun _ => keeps_ite (fun _ => ?_) fun _ => keeps_finishSequence
  · exact Keeps.then (keeps_modify fun _ h => { h with }) (keeps_modify fun _ h => { h with })
  · exact Keeps.then (keeps_modify fun _ h => { h with }) (keeps_modify fun _ h => { h with })

theorem keeps_computeEffectiveCharSet :
    Keeps (Painted pal totalRows) computeEffectiveCharSet :=
  keeps_modify fun _ h => { h with }

theorem keeps_setAltCharSet (g1 : Bool) : Keeps (Painted pal totalRows) (setAltCharSet g1) :=
  Keeps.then (keeps_modify fun _ h => { h with }) keeps_computeEffectiveCharSet

theorem keeps_doSelectCharSet (g1 : Bool) (b : JByte) :
    Keeps (Painted pal totalRows) (doSelectCharSet g1 b) := by
  have hselect (charSet : CharSet) :
      Keeps (Painted pal totalRows) (doSelectCharSet.select g1 charSet) :=
    Keeps.then (keeps_modify fun _ h => { h with }) keeps_computeEffectiveCharSet
  unfold doSelectCharSet
  split
  all_goals first | exact hselect _ | exact keeps_finishSequence

theorem keeps_setUTF8Mode (utf8Mode : Bool) :
    Keeps (Painted pal totalRows) (setUTF8Mode utf8Mode) := by
  apply keeps_modify
  intro s h
  by_cases hset : utf8Mode = true ∧ ¬ s.mUTF8Mode = true
  · simp only [if_pos hset]
    exact { h with }
  · simp only [if_neg hset]
    exact { h with }

theorem keeps_doEscPercent (b : JByte) : Keeps (Painted pal totalRows) (doEscPercent b) := by
  have hselect (utf8Mode : Bool) :
      Keeps (Painted pal totalRows) (doEscPercent.select utf8Mode) :=
    Keeps.then (keeps_setUTF8Mode _) (keeps_modify fun _ h => { h with })
  unfold doEscPercent
  split
  · exact hselect false
  · exact hselect true
  · exact keeps_pure _

theorem keeps_restoreCursor : Keeps (Painted pal totalRows) restoreCursor := by
  refine keeps_get_bind fun s => Keeps.then (keeps_setCursorRowCol _ _) ?_
  exact keeps_modify fun _ h => { h with effect := h.savedEffect }

end Sequences

theorem keeps_doEscPound (b : JByte) : Keeps (Painted pal totalRows) (doEscPound b) := by
  unfold doEscPound
  split
  · exact keeps_read fun s h => keeps_onScreen (fun _ _ =>
      TranscriptScreen.keeps_blockSet pal.zero pal.narrow _ _ _ _ _ h.style) s h
  · exact keeps_finishSequence

theorem keeps_reverseIndex : Keeps (Painted pal totalRows) reverseIndex := by
  apply keeps_read
  intro s h
  refine (wp_ite _ _ _ _ _).mpr ⟨fun _ => ?_, fun _ => ?_⟩
  · exact Keeps.then (keeps_copyOnScreen _ _ _ _ _ _) (keeps_blockClear _ _ _ _) s h
  · rw [wp_set]
    exact { h with }

theorem keeps_doEsc (b : JByte) : Keeps (Painted pal totalRows) (doEsc b) := by
  unfold doEsc
  split
  case h_4 => exact keeps_modify fun _ h => { h with savedEffect := h.effect }
  case h_5 => exact keeps_restoreCursor
  case h_6 => exact keeps_doLinefeed
  case h_7 => exact (keeps_setCursorCol _).then keeps_doLinefeed
  case h_8 => exact keeps_get_bind fun _ => keeps_setCursorRowCol _ _
  case h_9 => exact keeps_get_bind fun _ => keeps_setTabStop _ _
  case h_10 => exact keeps_reverseIndex
  case h_14 =>
    exact Keeps.then (keeps_modify fun _ h => { h with }) (keeps_continueSequenceIn _)
  all_goals exact keeps_modify fun _ h => { h with }

theorem keeps_insertChars : Keeps (Painted pal totalRows) insertChars :=
  keeps_get_bind fun _ => (keeps_copyOnScreen _ _ _ _ _ _).then (keeps_blockClear _ _ _ _)

theorem keeps_deleteChars : Keeps (Painted pal totalRows) deleteChars :=
  keeps_get_bind fun _ => (keeps_copyOnScreen _ _ _ _ _ _).then (keeps_blockClear _ _ _ _)

theorem keeps_insertLines : Keeps (Painted pal totalRows) insertLines :=
  keeps_get_bind fun _ => (keeps_copyOnScreen _ _ _ _ _ _).then (keeps_blockClear _ _ _ _)

theorem keeps_deleteLines : Keeps (Painted pal totalRows) deleteLines :=
  keeps_get_bind fun _ => (keeps_copyOnScreen _ _ _ _ _ _).then (keeps_blockClear _ _ _ _)

theorem keeps_eraseInDisplay : Keeps (Painted pal totalRows) eraseInDisplay := by
  refine keeps_get_bind fun s => ?_
  split
  · exact (keeps_blockClear _ _ _ _).then (keeps_blockClear _ _ _ _)
  · exact (keeps_blockClear _ _ _ _).then (keeps_blockClear _ _ _ _)
  · exact keeps_blockClear _ _ _ _
  · exact keeps_finishSequence

theorem keeps_eraseInLine : Keeps (Painted pal totalRows) eraseInLine := by
  refine keeps_get_bind fun s => ?_
  split
  · exact keeps_blockClear _ _ _ _
  · exact keeps_blockClear _ _ _ _
  · exact keeps_blockClear _ _ _ _
  · exact keeps_finishSequence

omit [Platform] in
theorem keeps_clearTabStop : Keeps (Painted pal totalRows) clearTabStop := by
  apply keeps_read
  intro s h
  split
  · exact keeps_setTabStop _ _ s h
  · rw [wp_bind, wp_set, wp_throwIf]
    exact ⟨fun _ => { h with }, fun _ => { h with }⟩
  · exact (wp_pure _ _ _ _).mpr h

omit [Platform] in
theorem keeps_doSetMode (newValue : Bool) : Keeps (Painted pal totalRows) (doSetMode newValue) := by
  apply keeps_modify
  intro s h
  split
  · exact { h with }
  · exact { h with }
  · exact h

omit [Platform] in
theorem keeps_setMargins : Keeps (Painted pal totalRows) setMargins :=
  keeps_get_bind fun _ => Keeps.then (keeps_modify fun _ h => { h with }) (keeps_setCursorRowCol _ _)

/-! ## §4  SGR -/

section Rendition

omit [Platform]

theorem keeps_addEffect {fx : BitVec 32} (hfx : fx &&& 0x3f = fx) :
    Keeps (Painted pal totalRows) (applyRendition.addEffect fx) :=
  keeps_modify fun _ h => { h with effect := pal.add hfx h.effect }

theorem keeps_removeEffect (fx : BitVec 32) :
    Keeps (Painted pal totalRows) (applyRendition.removeEffect fx) :=
  keeps_modify fun _ h => { h with effect := pal.remove h.effect }

theorem keeps_foreColor {c : Int} (hc : pal.Color c) : Keeps (Painted pal totalRows)
    (modify fun s => { s with mForeColor := c } : EmulatorM Unit) :=
  keeps_modify fun _ h => { h with fore := hc }

theorem keeps_backColor {c : Int} (hc : pal.Color c) : Keeps (Painted pal totalRows)
    (modify fun s => { s with mBackColor := c } : EmulatorM Unit) :=
  keeps_modify fun _ h => { h with back := hc }

/-- The sixteen colours of the terminal. -/
theorem Palette.basic (pal : Palette) {c : Int} (h : 0 ≤ c ∧ c ≤ 15) : pal.Color c :=
  pal.valid (isValidColor_iff.mpr ⟨h.1, lt_of_le_of_lt h.2 (by decide)⟩)

theorem keeps_applyRendition (code : Int) :
    Keeps (Painted pal totalRows) (applyRendition code) := by
  unfold applyRendition
  refine keeps_ite (fun _ => ?_) fun _ => ?_
  · exact keeps_modify fun _ h => { h with
      fore := h.defaultFore
      back := h.defaultBack
      effect := pal.normal }
  iterate 6 refine keeps_ite (fun _ => keeps_addEffect rfl) fun _ => ?_
  iterate 2 refine keeps_ite (fun _ => keeps_setAltCharSet _) fun _ => ?_
  iterate 6 refine keeps_ite (fun _ => keeps_removeEffect _) fun _ => ?_
  refine keeps_ite (fun _ => keeps_foreColor (pal.basic (by omega))) fun _ => ?_
  refine keeps_ite (fun _ => keeps_modify fun _ h => { h with fore := h.defaultFore }) fun _ => ?_
  refine keeps_ite (fun _ => keeps_backColor (pal.basic (by omega))) fun _ => ?_
  refine keeps_ite (fun _ => keeps_modify fun _ h => { h with back := h.defaultBack }) fun _ => ?_
  refine keeps_ite (fun _ => keeps_foreColor (pal.basic (by omega))) fun _ => ?_
  refine keeps_ite (fun _ => keeps_backColor (pal.basic (by omega))) fun _ => keeps_pure _

/-- Neither the arguments nor their number change while they are applied. -/
theorem applyRendition_args (code : Int) (args : Vector Int maxEscapeParameters) (n : Nat) :
    Keeps (fun s : TerminalEmulator => s.mArgs = args ∧ s.mArgIndex = n) (applyRendition code) := by
  unfold applyRendition
  iterate 7 refine keeps_ite (fun _ => keeps_modify fun _ h => h) fun _ => ?_
  iterate 2
    refine keeps_ite (fun _ => Keeps.then (keeps_modify fun _ h => h) (keeps_modify fun _ h => h))
      fun _ => ?_
  iterate 12 refine keeps_ite (fun _ => keeps_modify fun _ h => h) fun _ => ?_
  exact keeps_pure _

theorem wp_arg {i : Nat} {s : TerminalEmulator} {Q : Int → TerminalEmulator → Prop}
    {E : Exn → TerminalEmulator → Prop} (hQ : ∀ a, s.mArgs[i]? = some a → Q a s)
    (hE : ∀ e, E e s) : wp (arg i) Q E s := by
  unfold arg
  rw [wp_bind, wp_get]
  by_cases hi : i < maxEscapeParameters
  · rw [dif_pos hi, wp_pure]
    exact hQ _ (Vector.getElem?_eq_getElem hi)
  · rw [dif_neg hi, wp_throw]
    exact hE _

/-- SGR stays within the palette if the backgrounds it names do. -/
theorem wp_renditionFrom (fuel i : Nat) {s : TerminalEmulator} (h : Painted pal totalRows s)
    (hback : ∀ c ∈ backgroundsFrom s.mArgs s.mArgIndex fuel i, pal.Color c) :
    wp (renditionFrom fuel i) (fun _ => Painted pal totalRows) (fun _ => Painted pal totalRows)
      s := by
  induction fuel generalizing i s with
  | zero => exact (wp_pure _ _ _ _).mpr h
  | succ fuel ih =>
      -- what follows an argument goes on with the same arguments
      have hnext {x : EmulatorM Unit} (j : Nat) (hx : wp x (fun _ => Painted pal totalRows)
          (fun _ => Painted pal totalRows) s)
          (hargs : Keeps (fun t => t.mArgs = s.mArgs ∧ t.mArgIndex = s.mArgIndex) x)
          (hrest : ∀ c ∈ backgroundsFrom s.mArgs s.mArgIndex fuel j, pal.Color c) :
          wp (do x; renditionFrom fuel j) (fun _ => Painted pal totalRows)
            (fun _ => Painted pal totalRows) s := by
        rw [wp_bind]
        refine wp_mono (wp_and hx (hargs s ⟨rfl, rfl⟩)) (fun _ t ht => ?_) fun _ _ ht => ht.1
        refine ih j ht.1 ?_
        rw [ht.2.1, ht.2.2]
        exact hrest
      rw [renditionFrom, wp_bind, wp_get, wp_ite]
      refine ⟨fun hi => ?_, fun _ => (wp_pure _ _ _ _).mpr h⟩
      unfold backgroundsFrom at hback
      rw [if_pos hi] at hback
      rw [wp_bind]
      refine wp_arg (fun code hcode => ?_) fun _ => h
      rw [hcode] at hback
      by_cases hmissing : code < 0 ∧ s.mArgIndex > 0
      · rw [if_pos hmissing]
        rw [if_neg (by rintro ⟨⟨⟩, _⟩; omega), if_neg (by rintro ⟨⟨⟩, _⟩; omega)] at hback
        exact ih (i + 1) h hback
      · have hcode' (k : Int) (hk : 0 < k) : (if code < 0 then 0 else code) = k ↔ code = k := by
          split <;> omega
        rw [if_neg hmissing]
        simp only [hcode' 38 (by decide), hcode' 48 (by decide)]
        rw [wp_ite, wp_ite]
        refine ⟨fun hfore => ?_, fun hfore => ⟨fun hbg => ?_, fun hbg => ?_⟩⟩
        · rw [if_pos ⟨by rw [hfore.1], hfore.2⟩] at hback
          rw [wp_bind]
          refine wp_arg (fun color _ => ?_) fun _ => h
          refine hnext (i + 3) ?_ (keeps_when fun _ => keeps_modify fun _ ht => ht) hback
          exact keeps_when (fun hvalid => keeps_foreColor (pal.valid hvalid)) s h
        · rw [if_neg (by rintro ⟨⟨⟩, hlast⟩; exact hfore ⟨rfl, hlast⟩),
            if_pos ⟨by rw [hbg.1], hbg.2⟩] at hback
          rw [wp_bind]
          refine wp_arg (fun color hcolor => ?_) fun _ => h
          rw [hcolor] at hback
          have hc : pal.Color color := hback color (List.mem_append_left _ List.mem_cons_self)
          refine hnext (x := do
            modify fun s => { s with mBackColor := color }
            when (isValidColor color) (modify fun s => { s with mBackColor := color }))
            (i + 3) ?_ ?_ fun c hc => hback c (List.mem_append_right _ hc)
          · exact Keeps.then (keeps_backColor hc) (keeps_when fun _ => keeps_backColor hc) s h
          · exact Keeps.then (keeps_modify fun _ ht => ht)
              (keeps_when fun _ => keeps_modify fun _ ht => ht)
        · rw [if_neg (by rintro ⟨⟨⟩, hlast⟩; exact hfore ⟨rfl, hlast⟩),
            if_neg (by rintro ⟨⟨⟩, hlast⟩; exact hbg ⟨rfl, hlast⟩)] at hback
          exact hnext (i + 1) (keeps_applyRendition _ s h) (applyRendition_args _ _ _) hback

theorem wp_selectGraphicRendition (h : Painted pal totalRows s)
    (hback : ∀ c ∈ s.backgrounds, pal.Color c) :
    wp selectGraphicRendition (fun _ => Painted pal totalRows) (fun _ => Painted pal totalRows)
      s := by
  unfold selectGraphicRendition
  rw [wp_bind, wp_get]
  exact wp_renditionFrom _ _ h hback

end Rendition

/-! ## §5  Single bytes -/

theorem wp_doEscLeftSquareBracket (b : JByte) (h : Painted pal totalRows s)
    (hback : toChar b = 'm' → ∀ c ∈ s.backgrounds, pal.Color c) :
    wp (doEscLeftSquareBracket b) (fun _ => Painted pal totalRows)
      (fun _ => Painted pal totalRows) s := by
  unfold doEscLeftSquareBracket
  rw [wp_bind, wp_get]
  split
  case h_1 => exact keeps_insertChars s h
  case h_8 => exact keeps_eraseInDisplay s h
  case h_9 => exact keeps_eraseInLine s h
  case h_10 => exact keeps_insertLines s h
  case h_11 => exact keeps_deleteLines s h
  case h_12 => exact keeps_deleteChars s h
  case h_14 => exact keeps_blockClear _ _ _ _ s h
  case h_15 => exact (keeps_checked _).bind (fun _ => keeps_setCursorCol _) s h
  case h_20 => exact keeps_clearTabStop s h
  case h_21 => exact keeps_doSetMode true s h
  case h_22 => exact keeps_doSetMode false s h
  case h_23 hm => exact wp_selectGraphicRendition h (hback hm)
  case h_24 => exact keeps_setMargins s h
  case h_25 => exact keeps_parseArg b s h
  case h_7 | h_19 => exact keeps_get_bind (fun _ => keeps_setCursorPosition _ _) s h
  all_goals exact keeps_modify (fun _ h => { h with }) s h

omit [Platform] in
theorem keeps_changeDecFlags (b : JByte) (mask : BitVec 32) :
    Keeps (Painted pal totalRows) (changeDecFlags b mask) := by
  unfold changeDecFlags
  split
  case h_5 => exact keeps_parseArg b
  all_goals exact keeps_modify fun _ h => { h with }

theorem keeps_doEscLSBQuest (b : JByte) : Keeps (Painted pal totalRows) (doEscLSBQuest b) := by
  refine keeps_get_bind fun s => (keeps_changeDecFlags b _).then ?_
  refine (keeps_when fun _ => ?_).then (keeps_when fun _ => keeps_setCursorPosition 0 0)
  exact keeps_get_bind fun _ => (keeps_blockClear _ _ _ _).then (keeps_setCursorRowCol _ _)

omit [Platform] in
theorem keeps_collectOSCArgs (b : JByte) : Keeps (Painted pal totalRows) (collectOSCArgs b) := by
  apply keeps_read
  intro s h
  rw [wp_ite, wp_bind, wp_set]
  refine ⟨fun _ => ?_, fun _ => keeps_finishSequence s h⟩
  exact keeps_modify (fun _ h => { h with }) _ { h with }

theorem keeps_doOSC : Keeps (Painted pal totalRows) doOSC := by
  refine keeps_get_bind fun s => (keeps_when fun _ => ?_).then keeps_finishSequence
  apply keeps_modify
  intro t h
  split
  · exact { h with }
  · exact h

theorem keeps_doEscRightSquareBracket (b : JByte) :
    Keeps (Painted pal totalRows) (doEscRightSquareBracket b) := by
  unfold doEscRightSquareBracket
  split
  · exact keeps_doOSC
  · exact keeps_continueSequenceIn _
  · exact keeps_collectOSCArgs b

theorem keeps_doEscRightSquareBracketEsc (b : JByte) :
    Keeps (Painted pal totalRows) (doEscRightSquareBracketEsc b) := by
  refine keeps_ite (fun _ => keeps_doOSC) fun _ => ?_
  exact (keeps_collectOSCArgs _).then ((keeps_collectOSCArgs _).then (keeps_continueSequenceIn _))

/-- The byte that would set colours, and the colours that it would set. -/
def RenditionIn (pal : Palette) (b : JByte) (s : TerminalEmulator) : Prop :=
  toChar b = 'm' → s.mEscapeState = .leftSquareBracket → ∀ c ∈ s.backgrounds, pal.Color c

theorem wp_processInState (b : JByte) (h : Painted pal totalRows s) (hback : RenditionIn pal b s) :
    wp (processInState b) (fun _ => Painted pal totalRows) (fun _ => Painted pal totalRows) s := by
  unfold processInState
  rw [wp_bind, wp_get]
  cases hstate : s.mEscapeState with
  | none => exact keeps_when (fun _ => keeps_emitByte b) s h
  | esc => exact keeps_doEsc b s h
  | pound => exact keeps_doEscPound b s h
  | selectLeftParen => exact keeps_doSelectCharSet _ b s h
  | selectRightParen => exact keeps_doSelectCharSet _ b s h
  | leftSquareBracket => exact wp_doEscLeftSquareBracket b h fun hm => hback hm hstate
  | leftSquareBracketQuestionMark => exact keeps_doEscLSBQuest b s h
  | percent => exact keeps_doEscPercent b s h
  | rightSquareBracket => exact keeps_doEscRightSquareBracket b s h
  | rightSquareBracketEsc => exact keeps_doEscRightSquareBracketEsc b s h

theorem wp_dispatch (b : JByte) (h : Painted pal totalRows s) (hback : RenditionIn pal b s) :
    wp (dispatch b) (fun _ => Painted pal totalRows) (fun _ => Painted pal totalRows) s := by
  unfold dispatch
  split
  case h_1 => exact (wp_pure _ _ _ _).mpr h
  case h_2 =>
    exact keeps_get_bind (fun _ => keeps_ite (fun _ => keeps_doEscRightSquareBracket b)
      fun _ => keeps_pure _) s h
  case h_3 => exact keeps_get_bind (fun _ => keeps_setCursorCol _) s h
  case h_4 =>
    exact keeps_get_bind (fun _ => (keeps_checked _).bind fun _ => keeps_setCursorCol _) s h
  case h_5 => exact keeps_setCursorCol 0 s h
  case h_6 | h_7 | h_8 => exact keeps_doLinefeed s h
  case h_9 => exact keeps_setAltCharSet true s h
  case h_10 => exact keeps_setAltCharSet false s h
  case h_11 | h_12 =>
    exact keeps_get_bind (fun _ => keeps_ite (fun _ => keeps_finishSequence.then (keeps_emitByte _))
      fun _ => keeps_pure _) s h
  case h_13 =>
    exact keeps_get_bind (fun _ => keeps_ite (fun _ => keeps_startEscapeSequence _)
      fun _ => keeps_doEscRightSquareBracket b) s h
  case h_14 =>
    rw [wp_bind, wp_modify, wp_bind]
    refine wp_mono (wp_processInState b { h with } hback) (fun _ t ht => ?_) fun _ _ ht => ht
    exact keeps_get_bind (fun _ => keeps_when fun _ => keeps_finishSequence) t ht

omit [Platform] in
theorem toChar_eq_m {b : JByte} (h : toChar b = 'm') : b = 0x6d := by
  revert b
  decide +kernel

theorem wp_processUndecoded (b : JByte) (h : Painted pal totalRows s)
    (hback : RenditionIn pal b s) :
    wp (processUndecoded b) (fun _ => Painted pal totalRows) (fun _ => Painted pal totalRows)
      s := by
  have hcsi (b : JByte) (hb : isC1 b = true) (t : TerminalEmulator) :
      RenditionIn pal 27 t ∧ RenditionIn pal ((b &&& 0x7f) + 0x40) t := by
    refine ⟨fun hm => absurd (toChar_eq_m hm) (by decide), fun hm => ?_⟩
    have hne : ∀ b : JByte, isC1 b = true → (b &&& 0x7f) + 0x40 ≠ 0x6d := by decide +kernel
    exact absurd (toChar_eq_m hm) (hne b hb)
  unfold processUndecoded
  rw [wp_ite, wp_bind]
  refine ⟨fun hb => ?_, fun _ => wp_dispatch b h hback⟩
  refine wp_mono (wp_dispatch 27 h (hcsi b hb s).1) (fun _ t ht => ?_) fun _ _ ht => ht
  exact wp_dispatch _ ht (hcsi b hb t).2

omit [Platform] in
theorem keeps_putByte (b : JByte) : Keeps (Painted pal totalRows) (putByte b) := by
  apply keeps_read
  intro s h
  rw [wp_bind, wp_throwIf, wp_set]
  exact ⟨fun _ => h, fun _ => { h with }⟩

theorem keeps_emitDecoded (chars : List JChar) :
    Keeps (Painted pal totalRows) (emitDecoded chars) := by
  refine (keeps_checked _).bind fun c => keeps_ite (fun hc => ?_) fun _ => keeps_emitChars chars
  intro s h
  refine wp_processUndecoded _ h fun hm => ?_
  have heq := congrArg BitVec.toNat (toChar_eq_m hm)
  rw [BitVec.toNat_setWidth] at heq
  have : (0x6d : JByte).toNat = 109 := rfl
  omega

theorem keeps_finishUTF8 : Keeps (Painted pal totalRows) finishUTF8 := by
  refine Keeps.then (keeps_modify fun _ h => { h with }) (keeps_get_bind fun s => ?_)
  exact (keeps_emitDecoded _).then (keeps_modify fun _ h => { h with })

theorem keeps_continueUTF8 (b : JByte) : Keeps (Painted pal totalRows) (continueUTF8 b) := by
  refine keeps_ite (fun _ => ?_) fun _ => ?_
  · exact Keeps.then (keeps_modify fun _ h => { h with }) (keeps_emit _)
  · refine (keeps_putByte b).then (Keeps.then (keeps_modify fun _ h => { h with }) ?_)
    exact keeps_get_bind fun _ => keeps_when fun _ => keeps_finishUTF8

theorem keeps_startUTF8 (b : JByte) : Keeps (Painted pal totalRows) (startUTF8 b) := by
  unfold startUTF8
  cases toFollow b with
  | some n => exact Keeps.then (keeps_modify fun _ h => { h with }) (keeps_putByte b)
  | none => exact keeps_emit _

theorem wp_process (b : JByte) (h : Painted pal totalRows s)
    (hback : (s.mUTF8Mode = true → s.mUTF8ToFollow = 0) → RenditionIn pal b s) :
    wp (process b) (fun _ => Painted pal totalRows) (fun _ => Painted pal totalRows) s := by
  by_cases hraw : s.mUTF8Mode = true → s.mUTF8ToFollow = 0 ∧ b.toNat < 0x80
  · rw [wp_congr (process_undecoded hraw)]
    exact wp_processUndecoded b h (hback fun hmode => (hraw hmode).1)
  · push Not at hraw
    obtain ⟨hmode, hraw⟩ := hraw
    by_cases hfollow : s.mUTF8ToFollow > 0
    · rw [wp_congr (process_continue b hmode hfollow)]
      exact keeps_continueUTF8 b s h
    · rw [wp_congr (process_start hmode (by omega) hraw)]
      exact keeps_startUTF8 b s h

/-! ## §6  Resets and resizes -/

theorem keeps_reset : Keeps (Painted pal totalRows) reset := by
  refine Keeps.then (keeps_modify fun _ h => ?_) ?_
  · exact { h with
      fore := h.defaultFore
      back := h.defaultBack
      savedEffect := pal.normal }
  refine keeps_computeEffectiveCharSet.then (Keeps.then (keeps_modify fun _ h => { h with }) ?_)
  refine keeps_get_bind fun s => (keeps_blockClear _ _ _ _).then ?_
  exact (keeps_setUTF8Mode _).then (keeps_modify fun _ h => { h with })

omit [Platform] in
theorem keeps_setDefaultUTF8Mode (utf8 : Bool) :
    Keeps (Painted pal totalRows) (setDefaultUTF8Mode utf8) := by
  refine Keeps.then (keeps_modify fun _ h => { h with }) (keeps_get_bind fun _ => ?_)
  exact keeps_when fun _ => keeps_setUTF8Mode utf8

omit [Platform] in
theorem keeps_setSize (columns rows : Int) : Keeps (Painted pal totalRows) (setSize columns rows) := by
  refine Keeps.then (keeps_modify fun s h => ?_) (keeps_modify fun s h => ?_)
  · split
    · exact { h with }
    · exact h
  · split
    · exact { h with }
    · exact h

omit [Platform] in
theorem GrowableIntArray.append_of {P : Style → Prop} {a : GrowableIntArray} {i : Style}
    (hP0 : P 0) (ha : ∀ style ∈ a.mData, P style) (hi : P i) :
    ∀ style ∈ (a.append i).mData, P style := by
  intro style hstyle
  rcases List.mem_or_eq_of_mem_set hstyle with hmem | rfl
  · split at hmem
    · rcases List.mem_append.mp hmem with hmem | hmem
      · exact ha style hmem
      · rw [(List.mem_replicate.mp hmem).2]
        exact hP0
    · exact ha style hmem
  · exact hi

omit [Platform] in
theorem GrowableIntArray.ofList_of {P : Style → Prop} (hP0 : P 0) {values : List Style}
    (hvalues : ∀ style ∈ values, P style) (initialCapacity : Nat) :
    ∀ style ∈ (ofList initialCapacity values).mData, P style := by
  have hfold (a : GrowableIntArray) (ha : ∀ style ∈ a.mData, P style) :
      ∀ style ∈ (values.foldl append a).mData, P style := by
    induction values generalizing a with
    | nil => exact ha
    | cons i values ih =>
        rw [List.foldl_cons]
        refine ih (fun style hstyle => hvalues style (List.mem_cons_of_mem _ hstyle)) _ ?_
        exact append_of hP0 ha (hvalues i List.mem_cons_self)
  refine hfold _ fun style hstyle => ?_
  rw [(List.mem_replicate.mp hstyle).2]
  exact hP0

omit [Platform] in
/-- What is read from an array of styles is in the palette. -/
theorem wp_at {a : GrowableIntArray} (ha : ∀ style ∈ a.mData, pal.Style style) {k : Int}
    {Q : Style → TerminalEmulator → Prop} {E : Exn → TerminalEmulator → Prop}
    (hQ : ∀ style, pal.Style style → Q style s) (hE : ∀ e, E e s) :
    wp (checked (a.at k)) Q E s := by
  rw [wp_checked]
  exact ⟨fun style hget => hQ style (ha style (mem_of_arrayGet hget)), fun e _ => hE e⟩

theorem keeps_replay {cursor : TranscriptScreen.RowText} {colors : GrowableIntArray}
    (hcursor : ∀ style ∈ cursor.colors, pal.Style style)
    (hcolors : ∀ style ∈ colors.mData, pal.Style style) (text : List JChar) (n k : Nat)
    (mark : Option CursorMark) :
    Keeps (Painted pal totalRows) (replay cursor colors text n k mark) := by
  have hchar : ∀ style ∈ (GrowableIntArray.ofList 1 cursor.colors).mData, pal.Style style :=
    GrowableIntArray.ofList_of pal.zero hcursor 1
  fun_induction replay cursor colors text n k mark with
  | case1 => exact keeps_pure _
  | case2 => exact keeps_pure _
  | case3 c rest n k mark ihPair ihChar ihMark =>
      intro s h
      rw [wp_bind]
      refine wp_at hcolors (fun style hstyle => ?_) fun _ => h
      refine keeps_ite (fun _ => ?_) (fun _ => ?_) s h
      · cases rest with
        | nil => exact keeps_throw _
        | cons cLow rest => exact (keeps_emitStyled _ hstyle).then ihPair
      refine keeps_ite (fun _ => ?_) fun _ => keeps_ite (fun _ => ?_) fun _ => ?_
      · exact (keeps_setCursorCol 0).then (keeps_doLinefeed.then ihChar)
      · refine keeps_get_bind fun t => (keeps_when fun _ => ?_).then (ihMark t)
        intro u hu
        rw [wp_bind]
        exact wp_at hchar (fun style hstyle => keeps_emitText hstyle _ u hu) fun _ => hu
      · exact (keeps_emitStyled _ hstyle).then ihChar

omit [Platform] in
theorem keeps_restoreMark (mark : Option CursorMark) :
    Keeps (Painted pal totalRows) (restoreMark mark) := by
  cases mark with
  | none => exact keeps_pure _
  | some mark =>
      apply keeps_modify
      intro s h
      simp only []
      split
      · exact { h with }
      · split
        · exact { h with }
        · exact { h with }

omit [Platform] in
/-- A call on the screen, with what is known of its result. -/
theorem wp_onScreen {α : Type} {x : ScreenM α} {R : α → Prop} (h : Painted pal totalRows s)
    {columns screenRows : Nat} (hpos : 0 < columns)
    (hx : wp x (fun a t => t.Holds pal.Style columns totalRows screenRows ∧ R a)
      (fun _ t => t.Holds pal.Style columns totalRows screenRows) s.mScreen) :
    wp (onScreen x) (fun a t => Painted pal totalRows t ∧ R a)
      (fun _ t => Painted pal totalRows t) s := by
  unfold onScreen
  rw [wp_onField]
  exact wp_mono hx (fun _ _ ht => ⟨{ h with screen := ⟨columns, screenRows, hpos, ht.1⟩ }, ht.2⟩)
    fun _ _ ht => { h with screen := ⟨columns, screenRows, hpos, ht⟩ }

omit [Platform] in
theorem wp_fastResize (columns rows cursorRow : Int) (h : Painted pal totalRows s) :
    wp (onScreen (TranscriptScreen.fastResize columns rows cursorRow))
      (fun _ => Painted pal totalRows) (fun _ => Painted pal totalRows) s := by
  obtain ⟨columns', screenRows, hpos, hscreen⟩ := h.screen
  unfold onScreen
  rw [wp_onField]
  refine wp_mono (TranscriptScreen.wp_fastResize hscreen columns rows cursorRow)
    (fun r t ht => ?_) fun _ _ ht => { h with screen := ⟨columns', screenRows, hpos, ht⟩ }
  split at ht
  · exact { h with screen := ⟨columns', _, hpos, ht.2⟩ }
  · exact { h with screen := ⟨columns', screenRows, hpos, ht⟩ }

theorem wp_resizeScreen {columns rows : Nat} (hpos : 0 < columns) {style : Style}
    (hstyle : pal.Style style) (h : Painted pal totalRows s) :
    wp (onScreen (TranscriptScreen.resize columns rows style))
      (fun _ => Painted pal totalRows) (fun _ => Painted pal totalRows) s := by
  obtain ⟨_, _, _, hscreen⟩ := h.screen
  unfold onScreen TranscriptScreen.resize
  rw [wp_onField, wp_bind, wp_get, hscreen.height]
  exact wp_mono (TranscriptScreen.wp_init pal.zero pal.narrow _ hstyle)
    (fun _ _ ht => { h with screen := ⟨columns, rows, hpos, ht⟩ })
    fun _ _ ht => { h with screen := ⟨columns, rows, hpos, ht⟩ }

omit [Platform] in
theorem keeps_finishFastResize (columns rows cursorRow : Int) :
    Keeps (Painted pal totalRows) (finishFastResize columns rows cursorRow) := by
  refine (keeps_setSize columns rows).then (keeps_modify fun s h => ?_)
  split
  · exact { h with }
  · exact { h with }

theorem keeps_reflow {columns : Int} (hpos : 0 < columns) (rows : Int) :
    Keeps (Painted pal totalRows) (reflow columns rows) := by
  apply keeps_read
  intro s h
  obtain ⟨columns', screenRows, hpos', hscreen⟩ := h.screen
  rw [wp_bind]
  refine wp_mono (wp_onScreen h hpos'
    (TranscriptScreen.wp_getSelectedText pal.zero pal.narrow hscreen _ _ _ _ _))
    (fun charAtCursor t ht => ?_) fun _ _ ht => ht
  obtain ⟨ht, hchar⟩ := ht
  rw [wp_bind]
  refine wp_mono (keeps_setOnScreen _ _ 27 pal.zero t ht) (fun _ u hu => ?_) fun _ _ hu => hu
  obtain ⟨columns'', screenRows', hpos'', hscreen'⟩ := hu.screen
  rw [wp_bind]
  refine wp_mono (wp_onScreen hu hpos''
    (TranscriptScreen.wp_getTranscriptText pal.zero pal.narrow hscreen' true))
    (fun transcript v hv => ?_) fun _ _ hv => hv
  obtain ⟨hv, htext⟩ := hv
  rw [wp_bind]
  refine wp_mono (wp_resizeScreen (show 0 < columns.toNat by omega) h.style hv)
    (fun _ w hw => ?_) fun _ _ hw => hw
  refine (keeps_setSize columns rows).then (Keeps.then ?_ (Keeps.bind ?_ ?_)) w hw
  · exact keeps_modify fun _ h => { h with }
  · exact keeps_replay hchar (GrowableIntArray.ofList_of pal.zero htext 1024) _ _ _ _
  · exact fun mark => keeps_restoreMark mark

theorem keeps_updateSize (columns rows : Int) :
    Keeps (Painted pal totalRows) (updateSize columns rows) := by
  apply keeps_read
  intro s h
  simp only [wp_ite, wp_pure, wp_bind, wp_throwIf]
  refine ⟨fun _ => h, fun _ => ⟨fun _ => h, fun hcolumns => ⟨fun _ => h, fun _ => ?_⟩⟩⟩
  refine wp_mono (wp_fastResize columns rows s.mCursorRow h) (fun r t ht => ?_) fun _ _ ht => ht
  refine ⟨fun _ => keeps_finishFastResize _ _ _ t ht, fun _ => ?_⟩
  exact keeps_reflow (by omega) rows t ht

/-! ## §7  Runs -/

/-- What a call may not do within a palette: set a background outside of it. -/
def Call.StaysIn (pal : Palette) : Call → TerminalEmulator → Prop
  | .byte b, s => (s.mUTF8Mode = true → s.mUTF8ToFollow = 0) → RenditionIn pal b s
  | _, _ => True

instance (call : Call) (s : TerminalEmulator) : Decidable (call.StaysIn Palette.renderer s) :=
  match call with
  | .byte _ => by unfold Call.StaysIn RenditionIn Palette.renderer; infer_instance
  | .updateSize _ _ => .isTrue trivial
  | .reset => .isTrue trivial
  | .setDefaultUTF8Mode _ => .isTrue trivial

theorem painted_call {call : Call} (h : Painted pal totalRows s) (hcall : call.StaysIn pal s) :
    Painted pal totalRows (after call.body s) := by
  cases call with
  | byte b => exact after_of_wp (wp_process b h hcall)
  | updateSize columns rows => exact (keeps_updateSize columns rows).after h
  | reset => exact keeps_reset.after h
  | setDefaultUTF8Mode utf8 => exact (keeps_setDefaultUTF8Mode utf8).after h

theorem painted_create {columns rows : Nat} (hpos : 0 < columns)
    (h : create columns totalRows rows = .ok s) : Painted pal totalRows s := by
  obtain ⟨screen, hscreen, h⟩ := bind_ok_iff.mp h
  have hzero : pal.Color 0 := pal.basic (by decide)
  have hfore : pal.Color TextStyle.ciForeground := pal.valid (by decide)
  have hback : pal.Color TextStyle.ciBackground := pal.valid (by decide)
  have hshape : screen.Holds pal.Style columns totalRows rows :=
    of_construct hscreen
      (TranscriptScreen.wp_init pal.zero pal.narrow _ (pal.encode hfore hback pal.normal))
  refine of_construct h (keeps_reset _ ?_)
  exact ⟨⟨columns, rows, hpos, hshape⟩, hzero, hzero, hfore, hback, pal.normal, pal.normal⟩

/-- Every call of the run meets a condition on the state that it is made in. -/
def RunMeets (C : Call → TerminalEmulator → Prop) : List Call → TerminalEmulator → Prop
  | [], _ => True
  | call :: calls, s => C call s ∧ RunMeets C calls (after call.body s)

instance decidableRunMeets (C : Call → TerminalEmulator → Prop) [∀ call s, Decidable (C call s)] :
    ∀ calls s, Decidable (RunMeets C calls s)
  | [], _ => .isTrue trivial
  | call :: calls, s =>
      have := decidableRunMeets C calls (after call.body s)
      inferInstanceAs (Decidable (C call s ∧ RunMeets C calls (after call.body s)))

theorem painted_run {calls : List Call} (h : Painted pal totalRows s)
    (hcalls : RunMeets (Call.StaysIn pal) calls s) : Painted pal totalRows (run calls s) := by
  induction calls generalizing s with
  | nil => exact h
  | cons call calls ih => exact ih (painted_call h hcalls.1) hcalls.2

end TerminalEmulator

end Kbox.Emulatorview
