import Mathlib.Data.List.DropRight
import Kbox.Emulatorview.EscapeSequences

/-!
# Bytes, resets and resizes

What the session calls: `append`, which catches the exceptions of `process`,
`updateSize`, `reset` and `setDefaultUTF8Mode`.  A run of an emulator is a
sequence of such calls, a byte at a time.
-/

namespace Kbox.Emulatorview.TerminalEmulator

open Kbox.Framework

variable [Platform]

/-! ## Single bytes -/

/-- The inner `switch` of `process`, on the escape state. -/
def processInState (b : JByte) : EmulatorM Unit := do
  match (← get).mEscapeState with
  | .none => when (b.toInt ≥ 32) (emitByte b)
  | .esc => doEsc b
  | .pound => doEscPound b
  | .selectLeftParen => doEscSelectLeftParen b
  | .selectRightParen => doEscSelectRightParen b
  | .leftSquareBracket => doEscLeftSquareBracket b -- CSI
  | .leftSquareBracketQuestionMark => doEscLSBQuest b -- CSI ?
  | .percent => doEscPercent b
  | .rightSquareBracket => doEscRightSquareBracket b
  | .rightSquareBracketEsc => doEscRightSquareBracketEsc b

/-- The `switch` of `process`. -/
def dispatch (b : JByte) : EmulatorM Unit := do
  match b.toNat with
  | 0 => pure ⟨⟩ -- NUL
  | 7 => -- BEL: if in an OSC sequence, BEL may terminate a string; otherwise do nothing
      if (← get).mEscapeState = .rightSquareBracket then doEscRightSquareBracket b
  | 8 => -- BS
      setCursorCol (max 0 ((← get).mCursorCol - 1))
  | 9 => -- HT: move to next tab stop, but not past edge of screen
      let s ← get
      setCursorCol (← checked (s.nextTabStop s.mCursorCol))
  | 13 => setCursorCol 0
  | 10 | 11 | 12 => doLinefeed
  | 14 => setAltCharSet true -- SO
  | 15 => setAltCharSet false -- SI
  | 24 | 26 => -- CAN, SUB
      if (← get).mEscapeState ≠ .none then
        finishSequence
        emitByte 127
  | 27 => -- ESC: starts an escape sequence unless we're parsing a string
      if (← get).mEscapeState ≠ .rightSquareBracket then startEscapeSequence .esc
      else doEscRightSquareBracket b
  | _ =>
      modify fun s => { s with mContinueSequence := false }
      processInState b
      when (¬ (← get).mContinueSequence) finishSequence

/-- `(b & 0x80) == 0x80 && (b & 0x7f) <= 0x1f` -/
def isC1 (b : JByte) : Bool := 0x80 ≤ b.toNat ∧ b.toNat ≤ 0x9f

/-- `process(b, false)` -/
def processUndecoded (b : JByte) : EmulatorM Unit := do
  if isC1 b then
    -- ESC ((code & 0x7f) + 0x40) is the two-byte escape sequence corresponding to a
    -- particular C1 code
    dispatch 27
    dispatch ((b &&& 0x7f) + 0x40)
  else dispatch b

def unicodeReplacementChar : Int := 0xfffd

/-- `mUTF8ByteBuffer.put(b)` -/
def putByte (b : JByte) : EmulatorM Unit := do
  let s ← get
  let buf := s.mUTF8ByteBuffer
  throwIf (buf.position ≥ buf.array.length) .bufferOverflow
  set { s with mUTF8ByteBuffer := ⟨buf.array.set buf.position b, buf.position + 1⟩ }

/-- `byteBuf.rewind(); decoder.decode(byteBuf, charBuf, true);`, which decodes up to the
limit of the buffer, whatever lies behind the sequence. -/
def decodeBuffer : EmulatorM Unit :=
  modify fun s =>
    let chars := s.mInputCharBuffer
    let (decoded, taken) := Platform.decode s.mUTF8ByteBuffer.array
      (chars.array.length - chars.position)
    { s with
      mUTF8ByteBuffer := { s.mUTF8ByteBuffer with position := taken }
      mInputCharBuffer :=
        ⟨splice chars.array chars.position decoded, chars.position + decoded.length⟩ }

def emitDecoded (chars : List JChar) : EmulatorM Unit := do
  let c ← checked (arrayGet (.arrayIndexOutOfBounds .chars) chars 0)
  if 0x80 ≤ c.toNat ∧ c.toNat ≤ 0x9f then
    -- Sequence decoded to a C1 control character which needs to be sent through process()
    processUndecoded (c.setWidth 8)
  else emitChars chars

/-- A sequence is complete: decode and emit it. -/
def finishUTF8 : EmulatorM Unit := do
  decodeBuffer
  emitDecoded (← get).mInputCharBuffer.array
  modify fun s => { s with
    mUTF8ByteBuffer := { s.mUTF8ByteBuffer with position := 0 }
    mInputCharBuffer := { s.mInputCharBuffer with position := 0 } }

/-- How many bytes follow a lead byte. -/
def toFollow (b : JByte) : Option Int :=
  if b &&& 0xe0 = 0xc0 then some 1 -- 0b110 -- two-byte sequence
  else if b &&& 0xf0 = 0xe0 then some 2 -- 0b1110 -- three-byte sequence
  else if b &&& 0xf8 = 0xf0 then some 3 -- 0b11110 -- four-byte sequence
  else none

/-- A byte inside a sequence. -/
def continueUTF8 (b : JByte) : EmulatorM Unit := do
  if b &&& 0xc0 ≠ 0x80 then
    -- Not a UTF-8 continuation byte: replace the entire sequence with the replacement char
    modify fun s => { s with
      mUTF8ToFollow := 0
      mUTF8ByteBuffer := { s.mUTF8ByteBuffer with position := 0 } }
    emit unicodeReplacementChar
  else
    putByte b
    modify fun s => { s with mUTF8ToFollow := s.mUTF8ToFollow - 1 }
    when ((← get).mUTF8ToFollow = 0) finishUTF8

/-- A byte outside of the ASCII range that starts a sequence, or should. -/
def startUTF8 (b : JByte) : EmulatorM Unit :=
  match toFollow b with
  | some n => do
      modify fun s => { s with mUTF8ToFollow := n }
      putByte b
  | none => -- Not a valid UTF-8 sequence start -- replace this char
      emit unicodeReplacementChar

/-- Whether the decoder took care of the byte. -/
def handleUTF8Sequence (b : JByte) : EmulatorM Bool := do
  let s ← get
  if s.mUTF8ToFollow = 0 ∧ b.toNat < 0x80 then
    -- ASCII character -- we don't need to handle this
    return false
  else if s.mUTF8ToFollow > 0 then
    continueUTF8 b
    return true
  else
    startUTF8 b
    return true

def process (b : JByte) : EmulatorM Unit := do
  -- Let the UTF-8 decoder try to handle it if we're in UTF-8 mode
  let handled ← (if (← get).mUTF8Mode then handleUTF8Sequence b else pure false)
  when (¬ handled) (processUndecoded b)

/-! The three ways a byte can go. -/

theorem process_undecoded {s : TerminalEmulator} {b : JByte}
    (h : s.mUTF8Mode = true → s.mUTF8ToFollow = 0 ∧ b.toNat < 0x80) :
    process b s = processUndecoded b s := by
  cases hmode : s.mUTF8Mode with
  | false =>
      simp only [process, bind, EStateM.bind, get_apply, hmode,
        Bool.false_eq_true, if_false]
      rfl
  | true =>
      simp only [process, handleUTF8Sequence, bind, EStateM.bind, get_apply, hmode, if_true, h hmode, and_self]
      rfl

theorem process_handled {s : TerminalEmulator} {b : JByte} {x : EmulatorM Unit}
    (h : handleUTF8Sequence b s = (do x; return true) s) (hmode : s.mUTF8Mode = true) :
    process b s = x s := by
  simp only [process, bind, EStateM.bind, get_apply, hmode,
    if_true, h]
  cases x s with
  | ok a t => rfl
  | error e t => rfl

theorem process_continue {s : TerminalEmulator} (b : JByte) (hmode : s.mUTF8Mode = true)
    (h : s.mUTF8ToFollow > 0) : process b s = continueUTF8 b s := by
  refine process_handled ?_ hmode
  simp only [handleUTF8Sequence, bind, EStateM.bind, get_apply]
  rw [if_neg (by omega), if_pos h]
  rfl

theorem process_start {s : TerminalEmulator} {b : JByte} (hmode : s.mUTF8Mode = true)
    (h : s.mUTF8ToFollow ≤ 0) (hb : s.mUTF8ToFollow = 0 → 0x80 ≤ b.toNat) :
    process b s = startUTF8 b s := by
  refine process_handled ?_ hmode
  simp only [handleUTF8Sequence, bind, EStateM.bind, get_apply]
  rw [if_neg (by omega), if_neg (by omega)]
  rfl

/-! ## Resets -/

def reset : EmulatorM Unit := do
  modify fun s => { s with
    mCursorRow := 0
    mCursorCol := 0
    mArgIndex := 0
    mContinueSequence := false
    mEscapeState := .none
    mSavedCursorRow := 0
    mSavedCursorCol := 0
    mSavedEffect := 0
    mSavedDecFlags_DECSC_DECRC := 0
    mDecFlags := kWraparoundModeMask
    mSavedDecFlags := 0
    mInsertMode := false
    mAutomaticNewlineMode := false
    mTopMargin := 0
    mBottomMargin := s.mRows
    mAboutToAutoWrap := false
    mForeColor := s.mDefaultForeColor
    mBackColor := s.mDefaultBackColor
    mbKeypadApplicationMode := false
    mAlternateCharSet := false
    mCharSet := (.ascii, .specialGraphics) }
  computeEffectiveCharSet
  setDefaultTabStops
  let s ← get
  blockClear 0 0 s.mColumns s.mRows
  setUTF8Mode s.mDefaultUTF8Mode
  modify fun s => { s with
    mUTF8EscapeUsed := false
    mUTF8ToFollow := 0
    mUTF8ByteBuffer := { s.mUTF8ByteBuffer with position := 0 }
    mInputCharBuffer := { s.mInputCharBuffer with position := 0 } }

def setDefaultUTF8Mode (defaultToUTF8Mode : Bool) : EmulatorM Unit := do
  modify fun s => { s with mDefaultUTF8Mode := defaultToUTF8Mode }
  when (¬ (← get).mUTF8EscapeUsed) (setUTF8Mode defaultToUTF8Mode)

/-- The fields in front of the `reset()` at the end of the constructor. -/
def allocate (screen : TranscriptScreen) (columns rows : Nat) : TerminalEmulator where
  mCursorRow := 0
  mCursorCol := 0
  mRows := rows
  mColumns := columns
  mScreen := screen
  mSession := ⟨none, []⟩
  mArgIndex := 0
  mArgs := Vector.replicate maxEscapeParameters 0
  mOSCArg := []
  mContinueSequence := false
  mEscapeState := .none
  mSavedCursorRow := 0
  mSavedCursorCol := 0
  mSavedEffect := 0
  mSavedDecFlags_DECSC_DECRC := 0
  mDecFlags := 0
  mSavedDecFlags := 0
  mInsertMode := false
  mAutomaticNewlineMode := false
  mTabStop := List.replicate columns false
  mTopMargin := 0
  mBottomMargin := 0
  mAboutToAutoWrap := false
  mLastEmittedCharWidth := 0
  mJustWrapped := false
  mForeColor := 0
  mDefaultForeColor := TextStyle.ciForeground
  mBackColor := 0
  mDefaultBackColor := TextStyle.ciBackground
  mEffect := 0
  mbKeypadApplicationMode := false
  mAlternateCharSet := false
  mCharSet := (.uk, .uk)
  mUseAlternateCharSet := false
  mScrollCounter := 0
  mDefaultUTF8Mode := false
  mUTF8Mode := false
  mUTF8EscapeUsed := false
  mUTF8ToFollow := 0
  mUTF8ByteBuffer := ⟨List.replicate 4 0, 0⟩
  mInputCharBuffer := ⟨List.replicate 2 0, 0⟩

/-- `new TerminalEmulator(session, new TranscriptScreen(columns, totalRows, rows, scheme),
columns, rows, scheme)` -/
def create (columns totalRows rows : Nat) : Except Exn TerminalEmulator := do
  let screen ← TranscriptScreen.create columns totalRows rows
  construct reset (allocate screen columns rows)

/-! ## Resizes -/

/-- `GrowableIntArray` -/
structure GrowableIntArray where
  mData : List Style
  mLength : Nat

def GrowableIntArray.append (a : GrowableIntArray) (i : Style) : GrowableIntArray where
  mData :=
    (if a.mLength + 1 > a.mData.length then
      a.mData ++ List.replicate (max (a.mData.length * 3 / 2) 16 - a.mData.length) 0
    else a.mData).set a.mLength i
  mLength := a.mLength + 1

/-- `new GrowableIntArray(initialCapacity)` with the values appended. -/
def GrowableIntArray.ofList (initialCapacity : Nat) (values : List Style) : GrowableIntArray :=
  values.foldl append ⟨List.replicate initialCapacity 0, 0⟩

/-- `at(index)`, which reads behind the length as well. -/
def GrowableIntArray.at (a : GrowableIntArray) (index : Int) : Except Exn Style :=
  arrayGet (.arrayIndexOutOfBounds .growable) a.mData index

/-- `newCursorRow`, `newCursorCol` and `newCursorTranscriptPos` -/
structure CursorMark where
  row : Int
  col : Int
  transcriptPos : Int

/-- The loop of `updateSize` that emits the transcript, `n` units of it, in the colours from
`k` on. -/
def replay (cursor : TranscriptScreen.RowText) (colors : GrowableIntArray) :
    List JChar → Nat → Nat → Option CursorMark → EmulatorM (Option CursorMark)
  | _, 0, _, mark => pure mark
  | [], _ + 1, _, mark => pure mark
  | c :: rest, n + 1, k, mark => do
      let style ← checked (colors.at k)
      if isHighSurrogate c then
        match rest with
        | [] => throw .stringIndexOutOfBounds
        | cLow :: rest => do
            emitStyled (toCodePoint c cLow) style
            replay cursor colors rest (n - 1) (k + 1) mark
      else if c = 10 then
        setCursorCol 0
        doLinefeed
        replay cursor colors rest n (k + 1) mark
      else if c = 27 then
        -- We marked the cursor location with ESC earlier, so this is the place to restore
        -- the cursor to
        let s ← get
        let mark := ⟨s.mCursorRow, s.mCursorCol, s.mScreen.getActiveRows⟩
        when (cursor.text ≠ []) (do
          -- Emit the real character that was in this spot
          let encodedCursorColor ← checked ((GrowableIntArray.ofList 1 cursor.colors).at 0)
          emitText encodedCursorColor cursor.text)
        replay cursor colors rest n (k + 1) (some mark)
      else
        emitStyled c.toNat style
        replay cursor colors rest n (k + 1) mark

/-- If we marked a cursor location, move the cursor there now. -/
def restoreMark : Option CursorMark → EmulatorM Unit
  | none => pure ⟨⟩
  | some mark =>
      modify fun s =>
        -- Adjust for any scrolling between the time we marked the cursor location and now
        let scrollCount : Int := s.mScreen.getActiveRows - mark.transcriptPos
        if scrollCount > 0 ∧ scrollCount ≤ mark.row then
          { s with mCursorRow := mark.row - scrollCount, mCursorCol := mark.col }
        else if scrollCount > mark.row then
          -- Cursor scrolled off screen -- reset to top left corner
          { s with mCursorRow := 0, mCursorCol := 0 }
        else { s with mCursorRow := mark.row, mCursorCol := mark.col }

/-- The sizes, the margins and the tab stops. -/
def setSize (columns rows : Int) : EmulatorM Unit := do
  modify fun s =>
    if s.mRows ≠ rows then { s with mRows := rows, mTopMargin := 0, mBottomMargin := rows }
    else s
  modify fun s =>
    if s.mColumns ≠ columns then { s with
        mColumns := columns
        mTabStop := s.mTabStop.take columns.toNat ++
          List.replicate (columns.toNat - s.mTabStop.length) false }
    else s

/-- What is left of a text without the newlines at its end. -/
def trimNewlines (text : List JChar) : List JChar := text.rdropWhile (· = 10)

/-- `updateSize` where the screen could be resized in place: only need to make sure the
cursor is in the right spot. -/
def finishFastResize (columns rows cursorRow : Int) : EmulatorM Unit := do
  setSize columns rows
  modify fun s =>
    if s.mCursorCol ≥ 0 ∧ cursorRow ≥ 0 then { s with mCursorRow := cursorRow }
    else { s with mCursorCol := 0, mCursorRow := 0 }

/-- `updateSize` by way of the transcript. -/
def reflow (columns rows : Int) : EmulatorM Unit := do
  let s ← get
  -- Save the character at the cursor (if one exists) and store an ASCII ESC character at
  -- the cursor's location
  let charAtCursor ← onScreen (TranscriptScreen.getSelectedText true s.mCursorCol s.mCursorRow
    s.mCursorCol s.mCursorRow)
  onScreen (TranscriptScreen.set s.mCursorCol s.mCursorRow 27 0)
  let transcript ← onScreen (TranscriptScreen.getTranscriptText true)
  onScreen (TranscriptScreen.resize columns.toNat rows.toNat s.getStyle)
  setSize columns rows
  modify fun s => { s with mCursorRow := 0, mCursorCol := 0, mAboutToAutoWrap := false }
  restoreMark (← replay charAtCursor (GrowableIntArray.ofList 1024 transcript.colors)
    transcript.text (trimNewlines transcript.text).length 0 none)

def updateSize (columns rows : Int) : EmulatorM Unit := do
  let s ← get
  if s.mRows = rows ∧ s.mColumns = columns then return
  throwIf (columns ≤ 0) .illegalArgument
  throwIf (rows ≤ 0) .illegalArgument
  -- Try to resize the screen without getting the transcript
  let r ← onScreen (TranscriptScreen.fastResize columns rows s.mCursorRow)
  if r.1 then finishFastResize columns rows r.2
  else reflow columns rows

/-! ## Runs -/

/-- A call of the session. -/
inductive Call where
  | byte (b : JByte)
  | updateSize (columns rows : Int)
  | reset
  | setDefaultUTF8Mode (utf8 : Bool)

def Call.body : Call → EmulatorM Unit
  | .byte b => process b
  | .updateSize columns rows => TerminalEmulator.updateSize columns rows
  | .reset => TerminalEmulator.reset
  | .setDefaultUTF8Mode utf8 => TerminalEmulator.setDefaultUTF8Mode utf8

/-- `append(buffer, base, length)` -/
def append (bytes : List JByte) (s : TerminalEmulator) : TerminalEmulator :=
  bytes.foldl (fun s b => after (process b) s) s

/-- The emulator after a sequence of calls. -/
def run (calls : List Call) (s : TerminalEmulator) : TerminalEmulator :=
  calls.foldl (fun s call => after call.body s) s

end Kbox.Emulatorview.TerminalEmulator
