import Kbox.Emulatorview.ByteFrames
import Kbox.Emulatorview.CanvasReading

/-!
# What an emulator draws with

A byte draws in the colours and the effect that were set in front of it, or sets new ones and
draws nothing; a reset draws in the default colours; and a resize draws again what it finds on
the canvas.
-/

namespace Kbox.Emulatorview.TerminalEmulator

open Kbox.Framework
open UnicodeTranscript (Canvas Shows Worded)

/-- The colours and the effect that the emulator draws with. -/
def ink (s : TerminalEmulator) : Ink := ⟨s.mForeColor, s.mBackColor, s.mEffect⟩

theorem getStyle_ink (s : TerminalEmulator) : s.getStyle = s.ink.word := rfl

/-- The ink that a reset goes back to; it leaves the effect alone. -/
def resetInk (s : TerminalEmulator) : Ink := ⟨s.mDefaultForeColor, s.mDefaultBackColor, s.mEffect⟩

/-- An invariant about the screen and the ink. -/
class OfScreen (I : TerminalEmulator → Prop) : Prop where
  same : ∀ {s t : TerminalEmulator}, I s → t.mScreen = s.mScreen → t.ink = s.ink → I t

/-! ## §1  Methods that do not draw -/

section Still

variable {I : TerminalEmulator → Prop} [OfScreen I]

theorem still_modify {f : TerminalEmulator → TerminalEmulator}
    (hf : ∀ s, (f s).mScreen = s.mScreen ∧ (f s).ink = s.ink) :
    Keeps I (modify f : EmulatorM Unit) :=
  keeps_modify fun s h => OfScreen.same h (hf s).1 (hf s).2

theorem still_setCursorCol (col : Int) : Keeps I (setCursorCol col) :=
  still_modify fun _ => ⟨rfl, rfl⟩

theorem still_setCursorRowCol (row col : Int) : Keeps I (setCursorRowCol row col) :=
  still_modify fun _ => ⟨rfl, rfl⟩

theorem still_setCursorPosition (x y : Int) : Keeps I (setCursorPosition x y) :=
  keeps_get_bind fun _ => still_setCursorRowCol _ _

theorem still_setTabStop (i : Int) (value : Bool) : Keeps I (setTabStop i value) := by
  apply keeps_read
  intro s h
  simp only [wp_bind, wp_checked, wp_set]
  exact ⟨fun _ _ => OfScreen.same h rfl rfl, fun _ _ => h⟩

theorem still_finishSequence : Keeps I finishSequence := still_modify fun _ => ⟨rfl, rfl⟩

theorem still_continueSequenceIn (state : EscapeState) : Keeps I (continueSequenceIn state) :=
  still_modify fun _ => ⟨rfl, rfl⟩

theorem still_startEscapeSequence (state : EscapeState) : Keeps I (startEscapeSequence state) :=
  still_modify fun _ => ⟨rfl, rfl⟩

theorem still_parseArg (b : JByte) : Keeps I (parseArg b) := by
  refine keeps_ite (fun _ => ?_) fun _ => keeps_ite (fun _ => ?_) fun _ => still_finishSequence
  · exact Keeps.then (still_modify fun _ => ⟨rfl, rfl⟩) (still_modify fun _ => ⟨rfl, rfl⟩)
  · exact Keeps.then (still_modify fun _ => ⟨rfl, rfl⟩) (still_modify fun _ => ⟨rfl, rfl⟩)

theorem still_setAltCharSet (g1 : Bool) : Keeps I (setAltCharSet g1) :=
  Keeps.then (still_modify fun _ => ⟨rfl, rfl⟩) (still_modify fun _ => ⟨rfl, rfl⟩)

theorem still_doSelectCharSet (g1 : Bool) (b : JByte) : Keeps I (doSelectCharSet g1 b) := by
  have hselect (charSet : CharSet) : Keeps I (doSelectCharSet.select g1 charSet) :=
    Keeps.then (still_modify fun _ => ⟨rfl, rfl⟩) (still_modify fun _ => ⟨rfl, rfl⟩)
  unfold doSelectCharSet
  split
  all_goals first | exact hselect _ | exact still_finishSequence

theorem still_setUTF8Mode (utf8Mode : Bool) : Keeps I (setUTF8Mode utf8Mode) := by
  refine still_modify fun s => ?_
  simp only []
  split
  · exact ⟨rfl, rfl⟩
  · exact ⟨rfl, rfl⟩

theorem still_doEscPercent (b : JByte) : Keeps I (doEscPercent b) := by
  have hselect (utf8Mode : Bool) : Keeps I (doEscPercent.select utf8Mode) :=
    (still_setUTF8Mode utf8Mode).then (still_modify fun _ => ⟨rfl, rfl⟩)
  unfold doEscPercent
  split
  · exact hselect false
  · exact hselect true
  · exact keeps_pure _

theorem still_clearTabStop : Keeps I clearTabStop := by
  apply keeps_read
  intro s h
  split
  · exact still_setTabStop _ _ s h
  · rw [wp_bind, wp_set, wp_throwIf]
    exact ⟨fun _ => OfScreen.same h rfl rfl, fun _ => OfScreen.same h rfl rfl⟩
  · exact (wp_pure _ _ _ _).mpr h

theorem still_doSetMode (newValue : Bool) : Keeps I (doSetMode newValue) := by
  refine still_modify fun s => ?_
  split
  · exact ⟨rfl, rfl⟩
  · exact ⟨rfl, rfl⟩
  · exact ⟨rfl, rfl⟩

theorem still_setMargins : Keeps I setMargins :=
  keeps_get_bind fun _ =>
    Keeps.then (still_modify fun _ => ⟨rfl, rfl⟩) (still_setCursorRowCol _ _)

theorem still_changeDecFlags (b : JByte) (mask : BitVec 32) : Keeps I (changeDecFlags b mask) := by
  unfold changeDecFlags
  split
  case h_5 => exact still_parseArg b
  all_goals exact still_modify fun _ => ⟨rfl, rfl⟩

theorem still_collectOSCArgs (b : JByte) : Keeps I (collectOSCArgs b) := by
  apply keeps_read
  intro s h
  have hcontinue : Keeps I continueSequence := still_modify fun _ => ⟨rfl, rfl⟩
  rw [wp_ite, wp_bind, wp_set]
  exact ⟨fun _ => hcontinue _ (OfScreen.same h rfl rfl), fun _ => still_finishSequence s h⟩

theorem still_putByte (b : JByte) : Keeps I (putByte b) := by
  apply keeps_read
  intro s h
  rw [wp_bind, wp_throwIf, wp_set]
  exact ⟨fun _ => h, fun _ => OfScreen.same h rfl rfl⟩

theorem still_setSize (columns rows : Int) : Keeps I (setSize columns rows) := by
  refine Keeps.then (still_modify fun s => ?_) (still_modify fun s => ?_)
  · split
    · exact ⟨rfl, rfl⟩
    · exact ⟨rfl, rfl⟩
  · split
    · exact ⟨rfl, rfl⟩
    · exact ⟨rfl, rfl⟩

theorem still_restoreMark (mark : Option CursorMark) : Keeps I (restoreMark mark) := by
  cases mark with
  | none => exact keeps_pure _
  | some mark =>
      refine still_modify fun s => ?_
      simp only []
      split
      · exact ⟨rfl, rfl⟩
      · split
        · exact ⟨rfl, rfl⟩
        · exact ⟨rfl, rfl⟩

theorem still_finishFastResize (columns rows cursorRow : Int) :
    Keeps I (finishFastResize columns rows cursorRow) := by
  refine (still_setSize columns rows).then (still_modify fun s => ?_)
  split
  · exact ⟨rfl, rfl⟩
  · exact ⟨rfl, rfl⟩

variable [Platform]

theorem still_doOSC : Keeps I doOSC := by
  refine keeps_get_bind fun s => (keeps_when fun _ => ?_).then still_finishSequence
  refine still_modify fun t => ?_
  split
  · exact ⟨rfl, rfl⟩
  · exact ⟨rfl, rfl⟩

theorem still_doEscRightSquareBracket (b : JByte) : Keeps I (doEscRightSquareBracket b) := by
  unfold doEscRightSquareBracket
  split
  · exact still_doOSC
  · exact still_continueSequenceIn _
  · exact still_collectOSCArgs b

theorem still_doEscRightSquareBracketEsc (b : JByte) : Keeps I (doEscRightSquareBracketEsc b) := by
  refine keeps_ite (fun _ => still_doOSC) fun _ => ?_
  refine (still_collectOSCArgs _).then ((still_collectOSCArgs _).then ?_)
  exact still_continueSequenceIn _

end Still

/-! ## §2  Methods that draw -/

variable [Platform]

/-- The transcript comes from `s` by strokes in the given inks. -/
def Traced (inks : Ink → Prop) (s : UnicodeTranscript) (g : Canvas) (t : TerminalEmulator) : Prop :=
  TranscriptScreen.Sketched inks s g t.mScreen

/-- And the emulator still draws with one of them, `k`. -/
structure Inked (inks : Ink → Prop) (k : Ink) (s : UnicodeTranscript) (g : Canvas)
    (t : TerminalEmulator) : Prop where
  traced : Traced inks s g t
  ink : t.ink = k
  takes : inks k

variable {inks : Ink → Prop} {k : Ink} {s₀ : UnicodeTranscript} {g : Canvas}

theorem Traced.same {s t : TerminalEmulator} (h : Traced inks s₀ g s)
    (hscreen : t.mScreen = s.mScreen) : Traced inks s₀ g t := by
  unfold Traced
  rw [hscreen]
  exact h

instance : OfScreen (Traced inks s₀ g) where
  same h hscreen _ := h.same hscreen

instance : OfScreen (Inked inks k s₀ g) where
  same h hscreen hink := ⟨h.traced.same hscreen, hink.trans h.ink, h.takes⟩

theorem inked_onScreen {α : Type} {x : ScreenM α}
    (hx : Keeps (TranscriptScreen.Sketched inks s₀ g) x) :
    Keeps (Inked inks k s₀ g) (onScreen x) :=
  keeps_onField hx (fun _ h => h.traced) fun _ _ h ht => ⟨ht, h.ink, h.takes⟩

/-- A call on the screen in the current style. -/
theorem wp_onScreen_ink {α : Type} {x : Style → ScreenM α} {s : TerminalEmulator}
    (hx : inks k → Keeps (TranscriptScreen.Sketched inks s₀ g) (x k.word))
    (h : Inked inks k s₀ g s) :
    wp (onScreen (x s.getStyle)) (fun _ => Inked inks k s₀ g) (fun _ => Inked inks k s₀ g) s := by
  rw [getStyle_ink, h.ink]
  exact inked_onScreen (hx h.takes) s h

theorem inked_scroll : Keeps (Inked inks k s₀ g) scroll := by
  refine Keeps.then (still_modify fun _ => ⟨rfl, rfl⟩) (keeps_read fun s h => ?_)
  exact @wp_onScreen_ink _ _ _ _ _ _ (fun style => TranscriptScreen.scroll _ _ style) _
    (fun hk => TranscriptScreen.sketched_scroll _ _ hk) h

theorem inked_doLinefeed : Keeps (Inked inks k s₀ g) doLinefeed :=
  keeps_get_bind fun _ => keeps_ite
    (fun _ => inked_scroll.then (still_modify fun _ => ⟨rfl, rfl⟩))
    fun _ => still_modify fun _ => ⟨rfl, rfl⟩

theorem inked_blockClear (sx sy w h : Int) : Keeps (Inked inks k s₀ g) (blockClear sx sy w h) :=
  keeps_read fun _ hs =>
    @wp_onScreen_ink _ _ _ _ _ _ (fun style => TranscriptScreen.blockSet sx sy w h 32 style) _
      (fun hk => TranscriptScreen.sketched_blockSet _ _ _ _ _ hk) hs

theorem inked_blockCopy (sx sy w h dx dy : Int) :
    Keeps (Inked inks k s₀ g) (onScreen (TranscriptScreen.blockCopy sx sy w h dx dy)) :=
  inked_onScreen (TranscriptScreen.sketched_blockCopy _ _ _ _ _ _)

theorem inked_wrapCursor (width : Int) : Keeps (Inked inks k s₀ g) (wrapCursor width) := by
  refine keeps_get_bind fun s => keeps_ite (fun _ => ?_) fun _ => keeps_pure _
  refine (inked_onScreen (TranscriptScreen.sketched_setLineWrap _)).then ?_
  refine Keeps.then (still_modify fun _ => ⟨rfl, rfl⟩) ?_
  exact keeps_ite (fun _ => still_modify fun _ => ⟨rfl, rfl⟩) fun _ => inked_scroll

theorem inked_moveRight (width : Int) : Keeps (Inked inks k s₀ g) (moveRight width) :=
  keeps_get_bind fun _ => keeps_ite (fun _ => inked_blockCopy _ _ _ _ _ _) fun _ => keeps_pure _

theorem inked_placeChar (c : Int) {k' : Ink} (hk' : inks k') (width : Int) :
    Keeps (Inked inks k s₀ g) (placeChar c k'.word width) := by
  have hset (x y : Int) :
      Keeps (Inked inks k s₀ g) (onScreen (TranscriptScreen.set x y c k'.word)) :=
    inked_onScreen (TranscriptScreen.sketched_set _ _ _ hk')
  refine keeps_get_bind fun s => keeps_ite (fun _ => ?_) fun _ => ?_
  · exact keeps_ite (fun _ => hset _ _) fun _ => hset _ _
  · exact (hset _ _).then (still_modify fun _ => ⟨rfl, rfl⟩)

theorem inked_emitStyled (c : Int) {k' : Ink} (hk' : inks k') :
    Keeps (Inked inks k s₀ g) (emitStyled c k'.word) := by
  refine keeps_get_bind fun s => ?_
  refine (keeps_when fun _ => inked_wrapCursor _).then (keeps_get_bind fun s₁ => ?_)
  refine (keeps_when fun _ => inked_moveRight _).then ?_
  exact (inked_placeChar c hk' _).then (still_modify fun _ => ⟨rfl, rfl⟩)

theorem inked_emit (c : Int) : Keeps (Inked inks k s₀ g) (emit c) := by
  refine keeps_read fun s h => ?_
  rw [getStyle_ink, h.ink]
  exact inked_emitStyled c h.takes s h

theorem inked_emitByte (b : JByte) : Keeps (Inked inks k s₀ g) (emitByte b) :=
  keeps_get_bind fun _ => keeps_ite (fun _ => keeps_throwIf.then (inked_emit _))
    fun _ => inked_emit _

theorem inked_emitChars (c : List JChar) : Keeps (Inked inks k s₀ g) (emitChars c) := by
  refine (keeps_checked _).bind fun c₀ => keeps_ite (fun _ => ?_) fun _ => inked_emit _
  exact (keeps_checked _).bind fun c₁ => inked_emit _

theorem inked_emitText {k' : Ink} (hk' : inks k') (c : List JChar) :
    Keeps (Inked inks k s₀ g) (emitText k'.word c) := by
  fun_induction emitText k'.word c with
  | case1 => exact keeps_pure _
  | case2 => exact keeps_pure _
  | case3 => exact keeps_throw _
  | case4 c _ _ cLow rest ih => exact (inked_emitStyled _ hk').then ih
  | case5 c rest _ _ ih => exact (inked_emitStyled _ hk').then ih

theorem inked_doEscPound (b : JByte) : Keeps (Inked inks k s₀ g) (doEscPound b) := by
  unfold doEscPound
  split
  · refine keeps_read fun s h => ?_
    exact @wp_onScreen_ink _ _ _ _ _ _ (fun style => TranscriptScreen.blockSet 0 0 _ _ 69 style) _
      (fun hk => TranscriptScreen.sketched_blockSet _ _ _ _ _ hk) h
  · exact still_finishSequence

theorem inked_reverseIndex : Keeps (Inked inks k s₀ g) reverseIndex := by
  apply keeps_read
  intro s h
  refine (wp_ite _ _ _ _ _).mpr ⟨fun _ => ?_, fun _ => ?_⟩
  · exact (inked_blockCopy _ _ _ _ _ _).then (inked_blockClear _ _ _ _) s h
  · rw [wp_set]
    exact OfScreen.same h rfl rfl

theorem inked_eraseInDisplay : Keeps (Inked inks k s₀ g) eraseInDisplay := by
  refine keeps_get_bind fun s => ?_
  split
  · exact (inked_blockClear _ _ _ _).then (inked_blockClear _ _ _ _)
  · exact (inked_blockClear _ _ _ _).then (inked_blockClear _ _ _ _)
  · exact inked_blockClear _ _ _ _
  · exact still_finishSequence

theorem inked_eraseInLine : Keeps (Inked inks k s₀ g) eraseInLine := by
  refine keeps_get_bind fun s => ?_
  split
  · exact inked_blockClear _ _ _ _
  · exact inked_blockClear _ _ _ _
  · exact inked_blockClear _ _ _ _
  · exact still_finishSequence

/-- ICH, DCH, IL and DL: a copy, and the rest is cleared. -/
theorem inked_editLine {sx sy w h dx dy x y cw ch : TerminalEmulator → Int} :
    Keeps (Inked inks k s₀ g) (do
      let s ← get
      onScreen (TranscriptScreen.blockCopy (sx s) (sy s) (w s) (h s) (dx s) (dy s))
      blockClear (x s) (y s) (cw s) (ch s) : EmulatorM Unit) :=
  keeps_get_bind fun _ => (inked_blockCopy _ _ _ _ _ _).then (inked_blockClear _ _ _ _)

theorem inked_doEscLSBQuest (b : JByte) : Keeps (Inked inks k s₀ g) (doEscLSBQuest b) := by
  refine keeps_get_bind fun s => (still_changeDecFlags b _).then ?_
  refine (keeps_when fun _ => ?_).then (keeps_when fun _ => still_setCursorPosition 0 0)
  exact keeps_get_bind fun _ => (inked_blockClear _ _ _ _).then (still_setCursorRowCol _ _)

/-! ## §3  Methods that set the ink -/

theorem traced_modify {f : TerminalEmulator → TerminalEmulator}
    (hf : ∀ s, (f s).mScreen = s.mScreen) : Keeps (Traced inks s₀ g) (modify f : EmulatorM Unit) :=
  keeps_modify fun s h => h.same (hf s)

theorem traced_restoreCursor : Keeps (Traced inks s₀ g) restoreCursor :=
  keeps_get_bind fun _ => (still_setCursorRowCol _ _).then (traced_modify fun _ => rfl)

theorem traced_applyRendition (code : Int) : Keeps (Traced inks s₀ g) (applyRendition code) := by
  unfold applyRendition
  iterate 7 refine keeps_ite (fun _ => traced_modify fun _ => rfl) fun _ => ?_
  iterate 2 refine keeps_ite (fun _ => still_setAltCharSet _) fun _ => ?_
  iterate 12 refine keeps_ite (fun _ => traced_modify fun _ => rfl) fun _ => ?_
  exact keeps_pure _

theorem traced_renditionFrom (fuel i : Nat) : Keeps (Traced inks s₀ g) (renditionFrom fuel i) := by
  induction fuel generalizing i with
  | zero => exact keeps_pure _
  | succ fuel ih =>
      rw [renditionFrom]
      refine keeps_get_bind fun s => keeps_ite (fun _ => ?_) fun _ => keeps_pure _
      refine framed_arg_bind fun code => keeps_ite (fun _ => ih _) fun _ => ?_
      refine keeps_ite (fun _ => framed_arg_bind fun color => ?_) fun _ =>
        keeps_ite (fun _ => framed_arg_bind fun color => ?_) fun _ => ?_
      · refine Keeps.then ?_ (ih _)
        exact keeps_when fun _ => traced_modify fun _ => rfl
      · refine Keeps.then (traced_modify fun _ => rfl) (Keeps.then ?_ (ih _))
        exact keeps_when fun _ => traced_modify fun _ => rfl
      · exact (traced_applyRendition _).then (ih _)

/-! ## §4  Bytes -/

section Bytes

variable {s : TerminalEmulator} {α : Type}

/-- What draws in the current ink draws in an ink of `inks`. -/
theorem traced_of {x : EmulatorM α} (hx : Keeps (Inked inks k s₀ g) x) (h : Inked inks k s₀ g s) :
    wp x (fun _ => Traced inks s₀ g) (fun _ => Traced inks s₀ g) s :=
  wp_mono (hx s h) (fun _ _ ht => ht.traced) fun _ _ ht => ht.traced

theorem traced_doEsc (b : JByte) (h : Inked inks k s₀ g s) :
    wp (doEsc b) (fun _ => Traced inks s₀ g) (fun _ => Traced inks s₀ g) s := by
  unfold doEsc
  split
  case h_5 => exact traced_restoreCursor s h.traced
  case h_6 => exact traced_of inked_doLinefeed h
  case h_7 => exact traced_of ((still_setCursorCol _).then inked_doLinefeed) h
  case h_8 => exact traced_of (keeps_get_bind fun _ => still_setCursorRowCol _ _) h
  case h_9 => exact traced_of (keeps_get_bind fun _ => still_setTabStop _ _) h
  case h_10 => exact traced_of inked_reverseIndex h
  case h_14 =>
    exact traced_of (Keeps.then (still_modify fun _ => ⟨rfl, rfl⟩) (still_continueSequenceIn _)) h
  all_goals exact traced_of (still_modify fun _ => ⟨rfl, rfl⟩) h

theorem traced_doEscLeftSquareBracket (b : JByte) (h : Inked inks k s₀ g s) :
    wp (doEscLeftSquareBracket b) (fun _ => Traced inks s₀ g) (fun _ => Traced inks s₀ g) s := by
  unfold doEscLeftSquareBracket
  rw [wp_bind, wp_get]
  split
  case h_1 | h_10 | h_11 | h_12 => exact traced_of inked_editLine h
  case h_8 => exact traced_of inked_eraseInDisplay h
  case h_9 => exact traced_of inked_eraseInLine h
  case h_14 => exact traced_of (inked_blockClear _ _ _ _) h
  case h_15 => exact traced_of ((keeps_checked _).bind fun _ => still_setCursorCol _) h
  case h_20 => exact traced_of still_clearTabStop h
  case h_21 => exact traced_of (still_doSetMode true) h
  case h_22 => exact traced_of (still_doSetMode false) h
  case h_23 => exact keeps_get_bind (fun _ => traced_renditionFrom _ _) s h.traced
  case h_24 => exact traced_of still_setMargins h
  case h_25 => exact traced_of (still_parseArg b) h
  case h_7 | h_19 => exact traced_of (keeps_get_bind fun _ => still_setCursorPosition _ _) h
  all_goals exact traced_of (still_modify fun _ => ⟨rfl, rfl⟩) h

theorem traced_processInState (b : JByte) (h : Inked inks k s₀ g s) :
    wp (processInState b) (fun _ => Traced inks s₀ g) (fun _ => Traced inks s₀ g) s := by
  unfold processInState
  rw [wp_bind, wp_get]
  cases s.mEscapeState with
  | none => exact traced_of (keeps_when fun _ => inked_emitByte b) h
  | esc => exact traced_doEsc b h
  | pound => exact traced_of (inked_doEscPound b) h
  | selectLeftParen => exact traced_of (still_doSelectCharSet _ b) h
  | selectRightParen => exact traced_of (still_doSelectCharSet _ b) h
  | leftSquareBracket => exact traced_doEscLeftSquareBracket b h
  | leftSquareBracketQuestionMark => exact traced_of (inked_doEscLSBQuest b) h
  | percent => exact traced_of (still_doEscPercent b) h
  | rightSquareBracket => exact traced_of (still_doEscRightSquareBracket b) h
  | rightSquareBracketEsc => exact traced_of (still_doEscRightSquareBracketEsc b) h

theorem inked_escape : Keeps (Inked inks k s₀ g) (dispatch 27) :=
  keeps_get_bind fun _ => keeps_ite (fun _ => still_startEscapeSequence _)
    fun _ => still_doEscRightSquareBracket 27

theorem traced_dispatch (b : JByte) (h : Inked inks k s₀ g s) :
    wp (dispatch b) (fun _ => Traced inks s₀ g) (fun _ => Traced inks s₀ g) s := by
  unfold dispatch
  split
  case h_1 => exact traced_of (keeps_pure _) h
  case h_2 =>
    exact traced_of (keeps_get_bind fun _ => keeps_ite (fun _ => still_doEscRightSquareBracket b)
      fun _ => keeps_pure _) h
  case h_3 => exact traced_of (keeps_get_bind fun _ => still_setCursorCol _) h
  case h_4 =>
    exact traced_of (keeps_get_bind fun _ => (keeps_checked _).bind fun _ => still_setCursorCol _) h
  case h_5 => exact traced_of (still_setCursorCol 0) h
  case h_6 | h_7 | h_8 => exact traced_of inked_doLinefeed h
  case h_9 => exact traced_of (still_setAltCharSet true) h
  case h_10 => exact traced_of (still_setAltCharSet false) h
  case h_11 | h_12 =>
    refine traced_of (keeps_get_bind fun _ => keeps_ite (fun _ => ?_) fun _ => keeps_pure _) h
    exact still_finishSequence.then (inked_emitByte _)
  case h_13 =>
    exact traced_of (keeps_get_bind fun _ => keeps_ite (fun _ => still_startEscapeSequence _)
      fun _ => still_doEscRightSquareBracket b) h
  case h_14 =>
    rw [wp_bind, wp_modify, wp_bind]
    refine wp_mono (traced_processInState b (OfScreen.same h rfl rfl)) (fun _ t ht => ?_)
      fun _ _ ht => ht
    exact keeps_get_bind (fun _ => keeps_when fun _ => still_finishSequence) t ht

theorem traced_processUndecoded (b : JByte) (h : Inked inks k s₀ g s) :
    wp (processUndecoded b) (fun _ => Traced inks s₀ g) (fun _ => Traced inks s₀ g) s := by
  unfold processUndecoded
  rw [wp_ite]
  refine ⟨fun _ => ?_, fun _ => traced_dispatch b h⟩
  rw [wp_bind]
  exact wp_mono (inked_escape s h) (fun _ _ ht => traced_dispatch _ ht) fun _ _ ht => ht.traced

theorem traced_finishUTF8 (h : Inked inks k s₀ g s) :
    wp finishUTF8 (fun _ => Traced inks s₀ g) (fun _ => Traced inks s₀ g) s := by
  have hdecode : Keeps (Inked inks k s₀ g) decodeBuffer := still_modify fun _ => ⟨rfl, rfl⟩
  unfold finishUTF8
  rw [wp_bind]
  refine wp_mono (hdecode s h) (fun _ t ht => ?_) fun _ _ ht => ht.traced
  rw [wp_bind, wp_get, wp_bind]
  have hemit : wp (emitDecoded t.mInputCharBuffer.array) (fun _ => Traced inks s₀ g)
      (fun _ => Traced inks s₀ g) t := by
    unfold emitDecoded
    rw [wp_bind, wp_checked]
    refine ⟨fun c _ => ?_, fun _ _ => ht.traced⟩
    rw [wp_ite]
    exact ⟨fun _ => traced_processUndecoded _ ht, fun _ => traced_of (inked_emitChars _) ht⟩
  refine wp_mono hemit (fun _ u hu => ?_) fun _ _ hu => hu
  rw [wp_modify]
  exact hu.same rfl

theorem traced_continueUTF8 (b : JByte) (h : Inked inks k s₀ g s) :
    wp (continueUTF8 b) (fun _ => Traced inks s₀ g) (fun _ => Traced inks s₀ g) s := by
  unfold continueUTF8
  rw [wp_ite]
  refine ⟨fun _ => ?_, fun _ => ?_⟩
  · exact traced_of (Keeps.then (still_modify fun _ => ⟨rfl, rfl⟩) (inked_emit _)) h
  rw [wp_bind]
  refine wp_mono (still_putByte b s h) (fun _ t ht => ?_) fun _ _ ht => ht.traced
  rw [wp_bind, wp_modify, wp_bind, wp_get, wp_when]
  have ht' : Inked inks k s₀ g { t with mUTF8ToFollow := t.mUTF8ToFollow - 1 } :=
    OfScreen.same ht rfl rfl
  exact ⟨fun _ => traced_finishUTF8 ht', fun _ => ht'.traced⟩

theorem inked_startUTF8 (b : JByte) : Keeps (Inked inks k s₀ g) (startUTF8 b) := by
  unfold startUTF8
  cases toFollow b with
  | some n => exact Keeps.then (still_modify fun _ => ⟨rfl, rfl⟩) (still_putByte b)
  | none => exact inked_emit _

/-- A byte draws in the ink in front of it. -/
theorem traced_process (b : JByte) (h : Inked inks k s₀ g s) :
    wp (process b) (fun _ => Traced inks s₀ g) (fun _ => Traced inks s₀ g) s := by
  by_cases hraw : s.mUTF8Mode = true → s.mUTF8ToFollow = 0 ∧ b.toNat < 0x80
  · rw [wp_congr (process_undecoded hraw)]
    exact traced_processUndecoded b h
  · push Not at hraw
    obtain ⟨hmode, hraw⟩ := hraw
    by_cases hfollow : s.mUTF8ToFollow > 0
    · rw [wp_congr (process_continue b hmode hfollow)]
      exact traced_continueUTF8 b h
    · rw [wp_congr (process_start hmode (by omega) hraw)]
      exact traced_of (inked_startUTF8 b) h

end Bytes

/-! ## §5  Resets and resizes -/

section Resizes

variable {s : TerminalEmulator}

/-- A reset clears the screen in the default colours. -/
theorem traced_reset (h : Traced inks s₀ g s) (hk : inks s.resetInk) :
    wp reset (fun _ => Traced inks s₀ g) (fun _ => Traced inks s₀ g) s := by
  unfold reset
  rw [wp_bind, wp_modify]
  have hstart (t : TerminalEmulator) (hscreen : t.mScreen = s.mScreen) (hink : t.ink = s.resetInk) :
      Inked inks s.resetInk s₀ g t := ⟨h.same hscreen, hink, hk⟩
  refine traced_of ?_ (hstart _ rfl rfl)
  refine Keeps.then (still_modify fun _ => ⟨rfl, rfl⟩)
    (Keeps.then (still_modify fun _ => ⟨rfl, rfl⟩) ?_)
  refine keeps_get_bind fun _ => (inked_blockClear _ _ _ _).then ?_
  exact (still_setUTF8Mode _).then (still_modify fun _ => ⟨rfl, rfl⟩)

theorem traced_setDefaultUTF8Mode (utf8 : Bool) :
    Keeps (Traced inks s₀ g) (setDefaultUTF8Mode utf8) := by
  refine Keeps.then (still_modify fun _ => ⟨rfl, rfl⟩) (keeps_get_bind fun _ => ?_)
  exact keeps_when fun _ => still_setUTF8Mode utf8

omit [Platform] in
/-- What is appended later does not change the first style. -/
theorem GrowableIntArray.at_zero {values : List Style} {style : Style}
    (h : (GrowableIntArray.ofList 1 values).at 0 = .ok style) :
    style = 0 ∨ style ∈ values.take 1 := by
  have hfold (a : GrowableIntArray) (hdata : 0 < a.mData.length) (hlength : 0 < a.mLength)
      (rest : List Style) : (rest.foldl append a).mData[0]? = a.mData[0]? := by
    induction rest generalizing a with
    | nil => rfl
    | cons i rest ih =>
        rw [List.foldl_cons, ih]
        · unfold append
          rw [List.getElem?_set_ne (by omega)]
          split
          · exact List.getElem?_append_left hdata
          · rfl
        · unfold append
          rw [List.length_set]
          split
          · rw [List.length_append]
            omega
          · exact hdata
        · exact Nat.succ_pos _
  have hread := (arrayGet_ok_iff.mp h).2
  cases values with
  | nil => exact Or.inl (Option.some.inj hread).symm
  | cons first rest =>
      unfold ofList at hread
      have hkept := hfold ((⟨List.replicate 1 0, 0⟩ : GrowableIntArray).append first)
        Nat.one_pos Nat.one_pos rest
      rw [List.foldl_cons, Int.toNat_zero, hkept] at hread
      exact Or.inr (List.mem_singleton.mpr (Option.some.inj hread).symm)

/-- A transcript is drawn again in the inks that it is given with. -/
theorem inked_replay {cursor : TranscriptScreen.RowText} {colors : GrowableIntArray}
    (hcursor : ∀ style, (GrowableIntArray.ofList 1 cursor.colors).at 0 = .ok style →
      Worded inks style)
    (hcolors : ∀ style ∈ colors.mData, Worded inks style) (text : List JChar) (n i : Nat)
    (mark : Option CursorMark) :
    Keeps (Inked inks k s₀ g) (replay cursor colors text n i mark) := by
  have hemit (c : Int) {style : Style} (hstyle : Worded inks style) :
      Keeps (Inked inks k s₀ g) (emitStyled c style) := by
    obtain ⟨k', hk', rfl⟩ := hstyle
    exact inked_emitStyled c hk'
  have htext (c : List JChar) {style : Style} (hstyle : Worded inks style) :
      Keeps (Inked inks k s₀ g) (emitText style c) := by
    obtain ⟨k', hk', rfl⟩ := hstyle
    exact inked_emitText hk' c
  fun_induction replay cursor colors text n i mark with
  | case1 => exact keeps_pure _
  | case2 => exact keeps_pure _
  | case3 c rest n i mark ihPair ihChar ihMark =>
      intro s h
      rw [wp_bind, wp_checked]
      refine ⟨fun style hget => ?_, fun _ _ => h⟩
      have hstyle := hcolors style (mem_of_arrayGet hget)
      refine keeps_ite (fun _ => ?_) (fun _ => ?_) s h
      · cases rest with
        | nil => exact keeps_throw _
        | cons cLow rest => exact (hemit _ hstyle).then ihPair
      refine keeps_ite (fun _ => ?_) fun _ => keeps_ite (fun _ => ?_) fun _ => ?_
      · exact (still_setCursorCol 0).then (inked_doLinefeed.then ihChar)
      · refine keeps_get_bind fun t => (keeps_when fun _ => ?_).then (ihMark t)
        intro u hu
        rw [wp_bind, wp_checked]
        exact ⟨fun style hget => htext _ (hcursor style hget) u hu, fun _ _ => hu⟩
      · exact (hemit _ hstyle).then ihChar

variable {pal : Palette} {totalRows : Nat}

/-- What is read of the screen, with what is known of it. -/
theorem wp_reading {α : Type} {x : ScreenM α} {R R' : α → Prop} (h : Inked inks k s₀ g s)
    (hpainted : Painted pal totalRows s) (hunset : inks Ink.unset) (hwithin : g.Within inks)
    (hsketched : Keeps (TranscriptScreen.Sketched inks s₀ g) x)
    (hshape : ∀ {columns screenRows : Nat}, s.mScreen.Holds pal.Style columns totalRows screenRows →
      wp x (fun a t => t.Holds pal.Style columns totalRows screenRows ∧ R' a)
        (fun _ t => t.Holds pal.Style columns totalRows screenRows) s.mScreen)
    (hx : ∀ {columns screenRows : Nat} {g' : Canvas}, 0 < columns → g'.Within inks →
      TranscriptScreen.Reading pal.Style columns totalRows screenRows g' s.mScreen →
      wp x (fun a _ => R a) (fun _ _ => True) s.mScreen) :
    wp (onScreen x) (fun a t => (Inked inks k s₀ g t ∧ Painted pal totalRows t) ∧ R a)
      (fun _ => Traced inks s₀ g) s := by
  obtain ⟨columns, screenRows, hpos, hscreen⟩ := hpainted.screen
  obtain ⟨g', hshows, hwithin'⟩ := h.traced.within hunset hwithin
  have hread : wp (onScreen x) (fun a _ => R a) (fun _ _ => True) s := by
    unfold onScreen
    rw [wp_onField]
    exact hx hpos hwithin' ⟨hscreen, hshows⟩
  refine wp_mono (wp_and (wp_and (inked_onScreen hsketched s h)
    (wp_onScreen hpainted hpos (hshape hscreen))) hread) (fun _ t ht => ?_) fun _ t ht => ?_
  · exact ⟨⟨ht.1.1, ht.1.2.1⟩, ht.2⟩
  · exact ht.1.1.traced

theorem traced_reflow {columns : Int} (rows : Int) (h : Inked inks k s₀ g s)
    (hpainted : Painted pal totalRows s) (hunset : inks Ink.unset) (hwithin : g.Within inks) :
    wp (reflow columns rows) (fun _ => Traced inks s₀ g) (fun _ => Traced inks s₀ g) s := by
  unfold reflow
  rw [wp_bind, wp_get, wp_bind]
  refine wp_mono (wp_reading h hpainted hunset hwithin
    (TranscriptScreen.sketched_getSelectedText _ _ _ _ _)
    (fun hs => TranscriptScreen.wp_getSelectedText pal.zero pal.narrow hs _ _ _ _ _)
    fun hpos hw hr =>
      TranscriptScreen.wp_getSelectedText_listed pal.narrow hr hw hunset hpos _ _ _ _)
    (fun charAtCursor t ht => ?_) fun _ _ ht => ht
  obtain ⟨⟨ht, htp⟩, hchar⟩ := ht
  have hmark : Keeps (Inked inks k s₀ g)
      (onScreen (TranscriptScreen.set s.mCursorCol s.mCursorRow 27 0)) := by
    rw [← Ink.word_unset]
    exact inked_onScreen (TranscriptScreen.sketched_set _ _ _ hunset)
  rw [wp_bind]
  refine wp_mono (wp_and (hmark t ht) (keeps_setOnScreen _ _ 27 pal.zero t htp))
    (fun _ u hu => ?_) fun _ _ hu => hu.1.traced
  rw [wp_bind]
  refine wp_mono (wp_reading hu.1 hu.2 hunset hwithin
    (TranscriptScreen.sketched_getTranscriptText _)
    (fun hs => TranscriptScreen.wp_getTranscriptText pal.zero pal.narrow hs _)
    fun hpos hw hr => TranscriptScreen.wp_getTranscriptText_listed pal.narrow hr hw hunset hpos)
    (fun transcript v hv => ?_) fun _ _ hv => hv
  obtain ⟨⟨hv, _⟩, htext⟩ := hv
  have hresize : Keeps (Inked inks k s₀ g)
      (onScreen (TranscriptScreen.resize columns.toNat rows.toNat s.getStyle)) := by
    rw [getStyle_ink, h.ink]
    exact inked_onScreen (TranscriptScreen.sketched_resize _ _ h.takes)
  have hzero : Worded inks 0 := ⟨Ink.unset, hunset, Ink.word_unset.symm⟩
  refine traced_of (hresize.then ((still_setSize columns rows).then
    (Keeps.then (still_modify fun _ => ⟨rfl, rfl⟩) (Keeps.bind ?_ still_restoreMark)))) hv
  refine inked_replay (fun style hget => ?_) ?_ _ _ _ _
  · rcases GrowableIntArray.at_zero hget with rfl | hmem
    · exact hzero
    · exact hchar style hmem
  · exact GrowableIntArray.ofList_of hzero htext 1024

/-- A resize draws in the current ink and in what there is on the canvas. -/
theorem traced_updateSize (columns rows : Int) (h : Inked inks k s₀ g s)
    (hpainted : Painted pal totalRows s) (hunset : inks Ink.unset) (hwithin : g.Within inks) :
    wp (updateSize columns rows) (fun _ => Traced inks s₀ g) (fun _ => Traced inks s₀ g) s := by
  unfold updateSize
  simp only [wp_ite, wp_pure, wp_bind, wp_get, wp_throwIf]
  refine ⟨fun _ => h.traced, fun _ => ⟨fun _ => h.traced, fun _ => ?_⟩⟩
  refine ⟨fun _ => h.traced, fun _ => ?_⟩
  refine wp_mono (wp_and
    (inked_onScreen (TranscriptScreen.sketched_fastResize columns rows s.mCursorRow) s h)
    (wp_fastResize columns rows s.mCursorRow hpainted)) (fun r t ht => ?_) fun _ _ ht => ht.1.traced
  refine ⟨fun _ => traced_of (still_finishFastResize _ _ _) ht.1, fun _ => ?_⟩
  exact traced_reflow rows ht.1 ht.2 hunset hwithin

end Resizes

end Kbox.Emulatorview.TerminalEmulator
