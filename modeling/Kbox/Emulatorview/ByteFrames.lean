import Kbox.Framework.Keeps
import Kbox.Emulatorview.ProcessBytes

/-!
# What a byte leaves alone

The flags of the private modes and the buffers of the UTF-8 decoder change in few places: DECSET and
its relatives, DECRC, `ESC %`, and the decoder itself.  An invariant about them is kept by all else.
-/

namespace Kbox.Emulatorview.TerminalEmulator

open Kbox.Framework

/-- The flags and the decoder. -/
def modesOf (s : TerminalEmulator) : BitVec 32 × Int × Buffer JByte × Buffer JChar :=
  (s.mDecFlags, s.mUTF8ToFollow, s.mUTF8ByteBuffer, s.mInputCharBuffer)

/-- An invariant about the flags and the decoder. -/
class Framed (I : TerminalEmulator → Prop) : Prop where
  same : ∀ {s t : TerminalEmulator}, I s → modesOf t = modesOf s → I t

/-! ## §1  Cursor, screen and text -/

section Frame

variable {I : TerminalEmulator → Prop} [Framed I]

theorem framed_modify {f : TerminalEmulator → TerminalEmulator}
    (hf : ∀ s, modesOf (f s) = modesOf s) : Keeps I (modify f : EmulatorM Unit) :=
  keeps_modify fun s h => Framed.same h (hf s)

theorem framed_onScreen {α : Type} (x : ScreenM α) : Keeps I (onScreen x) := by
  intro s h
  unfold onScreen
  rw [wp_onField]
  exact wp_mono (wp_true _ _) (fun _ _ _ => Framed.same h rfl) fun _ _ _ => Framed.same h rfl

theorem framed_setCursorCol (col : Int) : Keeps I (setCursorCol col) :=
  framed_modify fun _ => rfl

theorem framed_setCursorRowCol (row col : Int) : Keeps I (setCursorRowCol row col) :=
  framed_modify fun _ => rfl

theorem framed_setCursorPosition (x y : Int) : Keeps I (setCursorPosition x y) :=
  keeps_get_bind fun _ => framed_setCursorRowCol _ _

theorem framed_setTabStop (i : Int) (value : Bool) : Keeps I (setTabStop i value) := by
  apply keeps_read
  intro s h
  simp only [wp_bind, wp_checked, wp_set]
  exact ⟨fun _ _ => Framed.same h rfl, fun _ _ => h⟩

theorem framed_scroll : Keeps I scroll :=
  Keeps.then (framed_modify fun _ => rfl) (keeps_get_bind fun _ => framed_onScreen _)

theorem framed_doLinefeed : Keeps I doLinefeed :=
  keeps_get_bind fun _ => keeps_ite (fun _ => framed_scroll.then (framed_modify fun _ => rfl))
    fun _ => framed_modify fun _ => rfl

variable [Platform]

theorem framed_blockClear (sx sy w h : Int) : Keeps I (blockClear sx sy w h) :=
  keeps_get_bind fun _ => framed_onScreen _

omit [Platform] in
theorem framed_wrapCursor (width : Int) : Keeps I (wrapCursor width) := by
  refine keeps_get_bind fun s => keeps_ite (fun _ => ?_) fun _ => keeps_pure _
  refine (framed_onScreen _).then (Keeps.then (framed_modify fun _ => rfl) ?_)
  exact keeps_ite (fun _ => framed_modify fun _ => rfl) fun _ => framed_scroll

theorem framed_moveRight (width : Int) : Keeps I (moveRight width) :=
  keeps_get_bind fun _ => keeps_ite (fun _ => framed_onScreen _) fun _ => keeps_pure _

theorem framed_placeChar (c : Int) (style : Style) (width : Int) :
    Keeps I (placeChar c style width) := by
  refine keeps_get_bind fun s => keeps_ite (fun _ => ?_) fun _ => ?_
  · exact keeps_ite (fun _ => framed_onScreen _) fun _ => framed_onScreen _
  · exact (framed_onScreen _).then (framed_modify fun _ => rfl)

theorem framed_emitStyled (c : Int) (style : Style) : Keeps I (emitStyled c style) := by
  refine keeps_get_bind fun s => ?_
  refine (keeps_when fun _ => framed_wrapCursor _).then (keeps_get_bind fun s₁ => ?_)
  refine (keeps_when fun _ => framed_moveRight _).then ?_
  exact (framed_placeChar c style _).then (framed_modify fun _ => rfl)

theorem framed_emit (c : Int) : Keeps I (emit c) :=
  keeps_get_bind fun _ => framed_emitStyled c _

theorem framed_emitByte (b : JByte) : Keeps I (emitByte b) :=
  keeps_get_bind fun _ => keeps_ite (fun _ => keeps_throwIf.then (framed_emit _))
    fun _ => framed_emit _

theorem framed_emitChars (c : List JChar) : Keeps I (emitChars c) := by
  refine (keeps_checked _).bind fun c₀ => keeps_ite (fun _ => ?_) fun _ => framed_emit _
  exact (keeps_checked _).bind fun c₁ => framed_emit _

theorem framed_emitText (style : Style) (c : List JChar) : Keeps I (emitText style c) := by
  fun_induction emitText style c with
  | case1 => exact keeps_pure _
  | case2 => exact keeps_pure _
  | case3 => exact keeps_throw _
  | case4 c _ _ cLow rest ih => exact (framed_emitStyled _ style).then ih
  | case5 c rest _ _ ih => exact (framed_emitStyled _ style).then ih

/-! ## §2  Sequences -/

omit [Platform] in
theorem framed_finishSequence : Keeps I finishSequence := framed_modify fun _ => rfl

omit [Platform] in
theorem framed_continueSequenceIn (state : EscapeState) :
    Keeps I (continueSequenceIn state) := framed_modify fun _ => rfl

omit [Platform] in
theorem framed_startEscapeSequence (state : EscapeState) :
    Keeps I (startEscapeSequence state) := framed_modify fun _ => rfl

omit [Platform] in
theorem framed_parseArg (b : JByte) : Keeps I (parseArg b) := by
  refine keeps_ite (fun _ => ?_) fun _ => keeps_ite (fun _ => ?_) fun _ => framed_finishSequence
  · exact Keeps.then (framed_modify fun _ => rfl) (framed_modify fun _ => rfl)
  · exact Keeps.then (framed_modify fun _ => rfl) (framed_modify fun _ => rfl)

omit [Platform] in
theorem framed_setAltCharSet (g1 : Bool) : Keeps I (setAltCharSet g1) :=
  Keeps.then (framed_modify fun _ => rfl) (framed_modify fun _ => rfl)

omit [Platform] in
theorem framed_doSelectCharSet (g1 : Bool) (b : JByte) : Keeps I (doSelectCharSet g1 b) := by
  have hselect (charSet : CharSet) : Keeps I (doSelectCharSet.select g1 charSet) :=
    Keeps.then (framed_modify fun _ => rfl) (framed_modify fun _ => rfl)
  unfold doSelectCharSet
  split
  all_goals first | exact hselect _ | exact framed_finishSequence

theorem framed_doEscPound (b : JByte) : Keeps I (doEscPound b) := by
  unfold doEscPound
  split
  · exact keeps_get_bind fun _ => framed_onScreen _
  · exact framed_finishSequence

theorem framed_reverseIndex : Keeps I reverseIndex := by
  apply keeps_read
  intro s h
  refine (wp_ite _ _ _ _ _).mpr ⟨fun _ => ?_, fun _ => ?_⟩
  · exact (framed_onScreen _).then (framed_blockClear _ _ _ _) s h
  · rw [wp_set]
    exact Framed.same h rfl

theorem framed_doEsc {b : JByte} (hb : toChar b = '8' → Keeps I restoreCursor) :
    Keeps I (doEsc b) := by
  unfold doEsc
  split
  case h_5 h8 => exact hb h8
  case h_6 => exact framed_doLinefeed
  case h_7 => exact (framed_setCursorCol _).then framed_doLinefeed
  case h_8 => exact keeps_get_bind fun _ => framed_setCursorRowCol _ _
  case h_9 => exact keeps_get_bind fun _ => framed_setTabStop _ _
  case h_10 => exact framed_reverseIndex
  case h_14 => exact Keeps.then (framed_modify fun _ => rfl) (framed_continueSequenceIn _)
  all_goals exact framed_modify fun _ => rfl

theorem framed_editLine {x : TerminalEmulator → ScreenM Unit} {sx sy w h : TerminalEmulator → Int} :
    Keeps I (do
      let s ← get
      onScreen (x s)
      blockClear (sx s) (sy s) (w s) (h s) : EmulatorM Unit) :=
  keeps_get_bind fun _ => (framed_onScreen _).then (framed_blockClear _ _ _ _)

theorem framed_eraseInDisplay : Keeps I eraseInDisplay := by
  refine keeps_get_bind fun s => ?_
  split
  · exact (framed_blockClear _ _ _ _).then (framed_blockClear _ _ _ _)
  · exact (framed_blockClear _ _ _ _).then (framed_blockClear _ _ _ _)
  · exact framed_blockClear _ _ _ _
  · exact framed_finishSequence

theorem framed_eraseInLine : Keeps I eraseInLine := by
  refine keeps_get_bind fun s => ?_
  split
  · exact framed_blockClear _ _ _ _
  · exact framed_blockClear _ _ _ _
  · exact framed_blockClear _ _ _ _
  · exact framed_finishSequence

omit [Platform] in
theorem framed_clearTabStop : Keeps I clearTabStop := by
  apply keeps_read
  intro s h
  split
  · exact framed_setTabStop _ _ s h
  · rw [wp_bind, wp_set, wp_throwIf]
    exact ⟨fun _ => Framed.same h rfl, fun _ => Framed.same h rfl⟩
  · exact (wp_pure _ _ _ _).mpr h

omit [Platform] in
theorem framed_doSetMode (newValue : Bool) : Keeps I (doSetMode newValue) := by
  refine framed_modify fun s => ?_
  split
  · rfl
  · rfl
  · rfl

omit [Platform] in
theorem framed_setMargins : Keeps I setMargins :=
  keeps_get_bind fun _ => Keeps.then (framed_modify fun _ => rfl) (framed_setCursorRowCol _ _)

omit [Platform] in
theorem framed_applyRendition (code : Int) : Keeps I (applyRendition code) := by
  unfold applyRendition
  iterate 7 refine keeps_ite (fun _ => framed_modify fun _ => rfl) fun _ => ?_
  iterate 2 refine keeps_ite (fun _ => framed_setAltCharSet _) fun _ => ?_
  iterate 12 refine keeps_ite (fun _ => framed_modify fun _ => rfl) fun _ => ?_
  exact keeps_pure _

omit [Platform] [Framed I] in
theorem framed_arg_bind {i : Nat} {f : Int → EmulatorM Unit} (hf : ∀ a, Keeps I (f a)) :
    Keeps I (arg i >>= f) := by
  refine Keeps.bind (keeps_get_bind fun s => ?_) hf
  split
  · exact keeps_pure _
  · exact keeps_throw _

omit [Platform] in
theorem framed_renditionFrom (fuel i : Nat) : Keeps I (renditionFrom fuel i) := by
  induction fuel generalizing i with
  | zero => exact keeps_pure _
  | succ fuel ih =>
      rw [renditionFrom]
      refine keeps_get_bind fun s => keeps_ite (fun _ => ?_) fun _ => keeps_pure _
      refine framed_arg_bind fun code => keeps_ite (fun _ => ih _) fun _ => ?_
      refine keeps_ite (fun _ => framed_arg_bind fun color => ?_) fun _ =>
        keeps_ite (fun _ => framed_arg_bind fun color => ?_) fun _ => ?_
      · refine Keeps.then ?_ (ih _)
        exact keeps_when fun _ => framed_modify fun _ => rfl
      · refine Keeps.then (framed_modify fun _ => rfl) (Keeps.then ?_ (ih _))
        exact keeps_when fun _ => framed_modify fun _ => rfl
      · exact (framed_applyRendition _).then (ih _)

theorem framed_doEscLeftSquareBracket (b : JByte) : Keeps I (doEscLeftSquareBracket b) := by
  unfold doEscLeftSquareBracket
  refine keeps_get_bind fun s => ?_
  split
  case h_1 | h_10 | h_11 | h_12 => exact framed_editLine
  case h_8 => exact framed_eraseInDisplay
  case h_9 => exact framed_eraseInLine
  case h_14 => exact framed_blockClear _ _ _ _
  case h_15 => exact (keeps_checked _).bind fun _ => framed_setCursorCol _
  case h_20 => exact framed_clearTabStop
  case h_21 => exact framed_doSetMode true
  case h_22 => exact framed_doSetMode false
  case h_23 => exact keeps_get_bind fun _ => framed_renditionFrom _ _
  case h_24 => exact framed_setMargins
  case h_25 => exact framed_parseArg b
  case h_7 | h_19 => exact keeps_get_bind fun _ => framed_setCursorPosition _ _
  all_goals exact framed_modify fun _ => rfl

theorem framed_doEscLSBQuest {b : JByte} (hb : ∀ mask, Keeps I (changeDecFlags b mask)) :
    Keeps I (doEscLSBQuest b) := by
  refine keeps_get_bind fun s => (hb _).then ?_
  refine (keeps_when fun _ => ?_).then (keeps_when fun _ => framed_setCursorPosition 0 0)
  exact keeps_get_bind fun _ => (framed_blockClear _ _ _ _).then (framed_setCursorRowCol _ _)

omit [Platform] in
theorem framed_collectOSCArgs (b : JByte) : Keeps I (collectOSCArgs b) := by
  apply keeps_read
  intro s h
  have hcontinue : Keeps I continueSequence := framed_modify fun _ => rfl
  rw [wp_ite, wp_bind, wp_set]
  exact ⟨fun _ => hcontinue _ (Framed.same h rfl), fun _ => framed_finishSequence s h⟩

theorem framed_doOSC : Keeps I doOSC := by
  refine keeps_get_bind fun s => (keeps_when fun _ => ?_).then framed_finishSequence
  refine framed_modify fun t => ?_
  split
  · rfl
  · rfl

theorem framed_doEscRightSquareBracket (b : JByte) : Keeps I (doEscRightSquareBracket b) := by
  unfold doEscRightSquareBracket
  split
  · exact framed_doOSC
  · exact framed_continueSequenceIn _
  · exact framed_collectOSCArgs b

theorem framed_doEscRightSquareBracketEsc (b : JByte) :
    Keeps I (doEscRightSquareBracketEsc b) := by
  refine keeps_ite (fun _ => framed_doOSC) fun _ => ?_
  refine (framed_collectOSCArgs _).then ((framed_collectOSCArgs _).then ?_)
  exact framed_continueSequenceIn _

end Frame

/-! ## §3  Bytes -/

section Bytes

variable [Platform] {I : TerminalEmulator → Prop} [Framed I] {s : TerminalEmulator}

/-- The sequences that may change a flag or the decoder keep the invariant, if the byte ends one. -/
structure EndsKept (I : TerminalEmulator → Prop) (b : JByte) (s : TerminalEmulator) : Prop where
  esc : s.mEscapeState = .esc → toChar b = '8' → Keeps I restoreCursor
  priv : s.mEscapeState = .leftSquareBracketQuestionMark → ∀ mask, Keeps I (changeDecFlags b mask)
  percent : s.mEscapeState = .percent → Keeps I (doEscPercent b)

theorem framed_processInState {b : JByte} (hb : EndsKept I b s) (h : I s) :
    wp (processInState b) (fun _ => I) (fun _ => I) s := by
  unfold processInState
  rw [wp_bind, wp_get]
  cases hstate : s.mEscapeState with
  | none => exact keeps_when (fun _ => framed_emitByte b) s h
  | esc => exact framed_doEsc (hb.esc hstate) s h
  | pound => exact framed_doEscPound b s h
  | selectLeftParen => exact framed_doSelectCharSet _ b s h
  | selectRightParen => exact framed_doSelectCharSet _ b s h
  | leftSquareBracket => exact framed_doEscLeftSquareBracket b s h
  | leftSquareBracketQuestionMark => exact framed_doEscLSBQuest (hb.priv hstate) s h
  | percent => exact hb.percent hstate s h
  | rightSquareBracket => exact framed_doEscRightSquareBracket b s h
  | rightSquareBracketEsc => exact framed_doEscRightSquareBracketEsc b s h

theorem framed_dispatch {b : JByte} (hb : EndsKept I b s) (h : I s) :
    wp (dispatch b) (fun _ => I) (fun _ => I) s := by
  unfold dispatch
  split
  case h_1 => exact (wp_pure _ _ _ _).mpr h
  case h_2 =>
    exact keeps_get_bind (fun _ => keeps_ite (fun _ => framed_doEscRightSquareBracket b)
      fun _ => keeps_pure _) s h
  case h_3 => exact keeps_get_bind (fun _ => framed_setCursorCol _) s h
  case h_4 =>
    exact keeps_get_bind (fun _ => (keeps_checked _).bind fun _ => framed_setCursorCol _) s h
  case h_5 => exact framed_setCursorCol 0 s h
  case h_6 | h_7 | h_8 => exact framed_doLinefeed s h
  case h_9 => exact framed_setAltCharSet true s h
  case h_10 => exact framed_setAltCharSet false s h
  case h_11 | h_12 =>
    refine keeps_get_bind (fun _ => keeps_ite (fun _ => ?_) fun _ => keeps_pure _) s h
    exact framed_finishSequence.then (framed_emitByte _)
  case h_13 =>
    exact keeps_get_bind (fun _ => keeps_ite (fun _ => framed_startEscapeSequence _)
      fun _ => framed_doEscRightSquareBracket b) s h
  case h_14 =>
    rw [wp_bind, wp_modify, wp_bind]
    have hsame : I { s with mContinueSequence := false } := Framed.same h rfl
    refine wp_mono (framed_processInState ⟨hb.esc, hb.priv, hb.percent⟩ hsame) (fun _ t ht => ?_)
      fun _ _ ht => ht
    exact keeps_get_bind (fun _ => keeps_when fun _ => framed_finishSequence) t ht

end Bytes

/-! ## §4  Resizes -/

section Resizes

variable {I : TerminalEmulator → Prop} [Framed I]

theorem framed_setSize (columns rows : Int) : Keeps I (setSize columns rows) := by
  refine Keeps.then (framed_modify fun s => ?_) (framed_modify fun s => ?_)
  · split <;> rfl
  · split <;> rfl

theorem framed_restoreMark (mark : Option CursorMark) : Keeps I (restoreMark mark) := by
  cases mark with
  | none => exact keeps_pure _
  | some mark =>
      refine framed_modify fun s => ?_
      simp only []
      split
      · rfl
      · split <;> rfl

variable [Platform]

theorem framed_replay (cursor : TranscriptScreen.RowText) (colors : GrowableIntArray)
    (text : List JChar) (n k : Nat) (mark : Option CursorMark) :
    Keeps I (replay cursor colors text n k mark) := by
  fun_induction replay cursor colors text n k mark with
  | case1 => exact keeps_pure _
  | case2 => exact keeps_pure _
  | case3 c rest n k mark ihPair ihChar ihMark =>
      refine (keeps_checked _).bind fun style => keeps_ite (fun _ => ?_) fun _ => ?_
      · cases rest with
        | nil => exact keeps_throw _
        | cons cLow rest => exact (framed_emitStyled _ style).then ihPair
      refine keeps_ite (fun _ => ?_) fun _ => keeps_ite (fun _ => ?_) fun _ => ?_
      · exact (framed_setCursorCol 0).then (framed_doLinefeed.then ihChar)
      · refine keeps_get_bind fun t => (keeps_when fun _ => ?_).then (ihMark t)
        exact (keeps_checked _).bind fun style => framed_emitText style _
      · exact (framed_emitStyled _ style).then ihChar

theorem framed_reflow (columns rows : Int) : Keeps I (reflow columns rows) := by
  refine keeps_get_bind fun s => (framed_onScreen _).bind fun charAtCursor => ?_
  refine (framed_onScreen _).then ((framed_onScreen _).bind fun transcript => ?_)
  refine (framed_onScreen _).then ((framed_setSize columns rows).then ?_)
  refine Keeps.then (framed_modify fun _ => rfl)
    (Keeps.bind ?_ fun mark => framed_restoreMark mark)
  exact framed_replay _ _ _ _ _ _

theorem framed_updateSize (columns rows : Int) : Keeps I (updateSize columns rows) := by
  refine keeps_get_bind fun s => keeps_ite (fun _ => keeps_pure _) fun _ => ?_
  refine keeps_throwIf.then (keeps_throwIf.then ((framed_onScreen _).bind fun r => ?_))
  refine keeps_ite (fun _ => (framed_setSize columns rows).then (framed_modify fun s => ?_))
    fun _ => framed_reflow columns rows
  split <;> rfl

end Resizes

end Kbox.Emulatorview.TerminalEmulator
