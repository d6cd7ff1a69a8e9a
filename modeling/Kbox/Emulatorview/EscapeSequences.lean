import Kbox.Emulatorview.TerminalEmulator

/-!
# Escape sequences

What `TerminalEmulator` does at the bytes of an escape sequence, one function
for each state that a sequence can be in.  `unknownSequence` and
`unimplementedSequence` only finish the sequence.
-/

namespace Kbox.Emulatorview.TerminalEmulator

open Kbox.Framework

/-- A byte, as the `switch` statements compare it with characters. -/
def toChar (b : JByte) : Char := Char.ofNat b.toNat

/-! ## Sequences and their arguments -/

def startEscapeSequence (escapeState : EscapeState) : EmulatorM Unit :=
  modify fun s => { s with
    mEscapeState := escapeState
    mArgIndex := 0
    mArgs := Vector.replicate maxEscapeParameters (-1) }

/-- `continueSequence()` -/
def continueSequence : EmulatorM Unit :=
  modify fun s => { s with mContinueSequence := true }

/-- `continueSequence(state)` -/
def continueSequenceIn (state : EscapeState) : EmulatorM Unit :=
  modify fun s => { s with mEscapeState := state, mContinueSequence := true }

def finishSequence : EmulatorM Unit :=
  modify fun s => { s with mEscapeState := .none }

/-- `oldValue * 10 + thisDigit`, or the digit if it is the first. -/
def appendDigit (oldValue : Int) (b : JByte) : Int :=
  let thisDigit : Int := b.toNat - 48
  if oldValue ≥ 0 then iadd (imul oldValue 10) thisDigit else thisDigit

def isDigit (b : JByte) : Bool := 48 ≤ b.toNat ∧ b.toNat ≤ 57

def parseArg (b : JByte) : EmulatorM Unit := do
  if isDigit b then
    modify fun s => { s with
      mArgs := if h : s.mArgIndex < maxEscapeParameters then
          s.mArgs.set s.mArgIndex (appendDigit s.mArgs[s.mArgIndex] b)
        else s.mArgs }
    continueSequence
  else if toChar b = ';' then
    modify fun s => { s with
      mArgIndex := if s.mArgIndex < maxEscapeParameters then s.mArgIndex + 1 else s.mArgIndex }
    continueSequence
  else finishSequence

/-- `getArg(index, defaultValue, true)` -/
def getArg (s : TerminalEmulator) (index : Fin maxEscapeParameters) (defaultValue : Int) : Int :=
  if s.mArgs[index] ≤ 0 then defaultValue else s.mArgs[index]

def getArg0 (s : TerminalEmulator) (defaultValue : Int) : Int := s.getArg 0 defaultValue

def getArg1 (s : TerminalEmulator) (defaultValue : Int) : Int := s.getArg 1 defaultValue

/-! ## Character sets -/

def computeEffectiveCharSet : EmulatorM Unit :=
  modify fun s => { s with
    mUseAlternateCharSet := decide
      ((if s.mAlternateCharSet then s.mCharSet.2 else s.mCharSet.1) = .specialGraphics) }

def setAltCharSet (alternateCharSet : Bool) : EmulatorM Unit := do
  modify fun s => { s with mAlternateCharSet := alternateCharSet }
  computeEffectiveCharSet

/-- `doSelectCharSet(charSetIndex, b)`, for index 1 if `g1`. -/
def doSelectCharSet (g1 : Bool) (b : JByte) : EmulatorM Unit :=
  match toChar b with
  | 'A' => select .uk
  | 'B' => select .ascii
  | '0' => select .specialGraphics
  | '1' => select .altStandard
  | '2' => select .altSpecialGraphics
  | _ => finishSequence
where
  /-- `mCharSet[charSetIndex] = charSet` -/
  select (charSet : CharSet) : EmulatorM Unit := do
    modify fun s => { s with
      mCharSet := if g1 then (s.mCharSet.1, charSet) else (charSet, s.mCharSet.2) }
    computeEffectiveCharSet

def doEscSelectLeftParen (b : JByte) : EmulatorM Unit := doSelectCharSet false b

def doEscSelectRightParen (b : JByte) : EmulatorM Unit := doSelectCharSet true b

def setUTF8Mode (utf8Mode : Bool) : EmulatorM Unit :=
  modify fun s =>
    let s := if utf8Mode ∧ ¬ s.mUTF8Mode then { s with
        mUTF8ToFollow := 0
        mUTF8ByteBuffer := { s.mUTF8ByteBuffer with position := 0 }
        mInputCharBuffer := { s.mInputCharBuffer with position := 0 } }
      else s
    { s with mUTF8Mode := utf8Mode }

def doEscPercent (b : JByte) : EmulatorM Unit :=
  match toChar b with
  | '@' => select false -- return to ISO 2022 mode
  | 'G' => select true  -- UTF-8 mode
  | _ => pure ⟨⟩        -- unimplemented character set
where
  select (utf8Mode : Bool) : EmulatorM Unit := do
    setUTF8Mode utf8Mode
    modify fun s => { s with mUTF8EscapeUsed := true }

/-! ## `ESC` -/

variable [Platform]

def doEscPound (b : JByte) : EmulatorM Unit := do
  match toChar b with
  | '8' => -- DECALN alignment test
      let s ← get
      onScreen (TranscriptScreen.blockSet 0 0 s.mColumns s.mRows 69 s.getStyle)
  | _ => finishSequence

def saveCursor : EmulatorM Unit :=
  modify fun s => { s with
    mSavedCursorRow := s.mCursorRow
    mSavedCursorCol := s.mCursorCol
    mSavedEffect := s.mEffect
    mSavedDecFlags_DECSC_DECRC := s.mDecFlags &&& kDecscDecrcMask }

def restoreCursor : EmulatorM Unit := do
  let s ← get
  setCursorRowCol s.mSavedCursorRow s.mSavedCursorCol
  modify fun s => { s with
    mEffect := s.mSavedEffect
    mDecFlags := (s.mDecFlags &&& ~~~kDecscDecrcMask) ||| s.mSavedDecFlags_DECSC_DECRC }

def reverseIndex : EmulatorM Unit := do
  let s ← get
  if s.mCursorRow ≤ s.mTopMargin then
    onScreen (TranscriptScreen.blockCopy 0 s.mTopMargin s.mColumns
      (s.mBottomMargin - (s.mTopMargin + 1)) 0 (s.mTopMargin + 1))
    blockClear 0 s.mTopMargin s.mColumns 1
  else set { s with mCursorRow := s.mCursorRow - 1 }

/-- VT100 with advanced video options -/
def deviceAttributes : List JByte := [27, 91, 63, 49, 59, 50, 99]

def sendDeviceAttributes : EmulatorM Unit :=
  modify fun s => { s with
    mSession := { s.mSession with written := s.mSession.written ++ deviceAttributes } }

def startCollectingOSCArgs : EmulatorM Unit :=
  modify fun s => { s with mOSCArg := [] }

def doEsc (b : JByte) : EmulatorM Unit := do
  match toChar b with
  | '#' => continueSequenceIn .pound
  | '(' => continueSequenceIn .selectLeftParen
  | ')' => continueSequenceIn .selectRightParen
  | '7' => saveCursor -- DECSC
  | '8' => restoreCursor -- DECRC
  | 'D' => doLinefeed -- INDEX
  | 'E' => -- NEL
      setCursorCol 0
      doLinefeed
  | 'F' => -- Cursor to lower-left corner of screen
      setCursorRowCol 0 ((← get).mBottomMargin - 1)
  | 'H' => -- Tab set
      setTabStop (← get).mCursorCol true
  | 'M' => reverseIndex
  | 'Z' => sendDeviceAttributes -- return terminal ID
  | '[' => continueSequenceIn .leftSquareBracket
  | '=' => -- DECKPAM
      modify fun s => { s with mbKeypadApplicationMode := true }
  | ']' => -- OSC
      startCollectingOSCArgs
      continueSequenceIn .rightSquareBracket
  | '>' => -- DECKPNM
      modify fun s => { s with mbKeypadApplicationMode := false }
  | _ => finishSequence

/-! ## `ESC [` -/

/-- ICH -/
def insertChars : EmulatorM Unit := do
  let s ← get
  let charsAfterCursor := s.mColumns - s.mCursorCol
  let charsToInsert := min (s.getArg0 1) charsAfterCursor
  let charsToMove := charsAfterCursor - charsToInsert
  onScreen (TranscriptScreen.blockCopy s.mCursorCol s.mCursorRow charsToMove 1
    (s.mCursorCol + charsToInsert) s.mCursorRow)
  blockClear s.mCursorCol s.mCursorRow charsToInsert 1

def deleteChars : EmulatorM Unit := do
  let s ← get
  let charsAfterCursor := s.mColumns - s.mCursorCol
  let charsToDelete := min (s.getArg0 1) charsAfterCursor
  let charsToMove := charsAfterCursor - charsToDelete
  onScreen (TranscriptScreen.blockCopy (s.mCursorCol + charsToDelete) s.mCursorRow charsToMove 1
    s.mCursorCol s.mCursorRow)
  blockClear (s.mCursorCol + charsToMove) s.mCursorRow charsToDelete 1

def insertLines : EmulatorM Unit := do
  let s ← get
  let linesAfterCursor := s.mBottomMargin - s.mCursorRow
  let linesToInsert := min (s.getArg0 1) linesAfterCursor
  let linesToMove := linesAfterCursor - linesToInsert
  onScreen (TranscriptScreen.blockCopy 0 s.mCursorRow s.mColumns linesToMove 0
    (s.mCursorRow + linesToInsert))
  blockClear 0 s.mCursorRow s.mColumns linesToInsert

def deleteLines : EmulatorM Unit := do
  let s ← get
  let linesAfterCursor := s.mBottomMargin - s.mCursorRow
  let linesToDelete := min (s.getArg0 1) linesAfterCursor
  let linesToMove := linesAfterCursor - linesToDelete
  onScreen (TranscriptScreen.blockCopy 0 (s.mCursorRow + linesToDelete) s.mColumns linesToMove 0
    s.mCursorRow)
  blockClear 0 (s.mCursorRow + linesToMove) s.mColumns linesToDelete

/-- ED, which ignores the scrolling margins. -/
def eraseInDisplay : EmulatorM Unit := do
  let s ← get
  match s.getArg0 0 with
  | 0 => -- Clear below
      blockClear s.mCursorCol s.mCursorRow (s.mColumns - s.mCursorCol) 1
      blockClear 0 (s.mCursorRow + 1) s.mColumns (s.mRows - (s.mCursorRow + 1))
  | 1 => -- Erase from the start of the screen to the cursor.
      blockClear 0 0 s.mColumns s.mCursorRow
      blockClear 0 s.mCursorRow (s.mCursorCol + 1) 1
  | 2 => -- Clear all
      blockClear 0 0 s.mColumns s.mRows
  | _ => finishSequence

/-- EL -/
def eraseInLine : EmulatorM Unit := do
  let s ← get
  match s.getArg0 0 with
  | 0 => -- Clear to right
      blockClear s.mCursorCol s.mCursorRow (s.mColumns - s.mCursorCol) 1
  | 1 => -- Erase start of line to cursor (including cursor)
      blockClear 0 s.mCursorRow (s.mCursorCol + 1) 1
  | 2 => -- Clear whole line
      blockClear 0 s.mCursorRow s.mColumns 1
  | _ => finishSequence

def clearTabStop : EmulatorM Unit := do
  let s ← get
  match s.getArg0 0 with
  | 0 => setTabStop s.mCursorCol false
  | 3 => -- The loop over the columns stops at the end of the array
      set { s with mTabStop := List.replicate (min s.mColumns.toNat s.mTabStop.length) false ++
        s.mTabStop.drop s.mColumns.toNat }
      throwIf (s.mTabStop.length < s.mColumns) (.arrayIndexOutOfBounds .mTabStop)
  | _ => pure ⟨⟩ -- Specified to have no effect.

def doSetMode (newValue : Bool) : EmulatorM Unit :=
  modify fun s =>
    match s.getArg0 0 with
    | 4 => { s with mInsertMode := newValue }
    | 20 => { s with mAutomaticNewlineMode := newValue }
    | _ => s

/-- Parameters are Row ; Column -/
def setHorizontalVerticalPosition : EmulatorM Unit := do
  let s ← get
  setCursorPosition (s.getArg1 1 - 1) (s.getArg0 1 - 1)

/-- DECSTBM.  The escape sequence numbers top 1..23, but we number top 0..22; we store the
first line below the bottom-most scrolling line. -/
def setMargins : EmulatorM Unit := do
  let s ← get
  let top := max 0 (min (s.getArg0 1 - 1) (s.mRows - 2))
  let bottom := max (top + 2) (min (s.getArg1 s.mRows) s.mRows)
  modify fun s => { s with mTopMargin := top, mBottomMargin := bottom }
  -- The cursor is placed in the home position
  setCursorRowCol top 0

/-- `checkColor(color)` -/
def isValidColor (color : Int) : Bool := 0 ≤ color ∧ color < TextStyle.ciColorLength

/-- The state after one argument of SGR other than 38 and 48. -/
def applyRendition (code : Int) : EmulatorM Unit :=
  if code = 0 then -- reset
    modify fun s => { s with
      mForeColor := s.mDefaultForeColor
      mBackColor := s.mDefaultBackColor
      mEffect := TextStyle.fxNormal }
  else if code = 1 then addEffect TextStyle.fxBold
  else if code = 3 then addEffect TextStyle.fxItalic
  else if code = 4 then addEffect TextStyle.fxUnderline
  else if code = 5 then addEffect TextStyle.fxBlink
  else if code = 7 then addEffect TextStyle.fxInverse
  else if code = 8 then addEffect TextStyle.fxInvisible
  else if code = 10 then setAltCharSet false -- exit alt charset (TERM=linux)
  else if code = 11 then setAltCharSet true -- enter alt charset (TERM=linux)
  else if code = 22 then removeEffect TextStyle.fxBold
  else if code = 23 then removeEffect TextStyle.fxItalic
  else if code = 24 then removeEffect TextStyle.fxUnderline
  else if code = 25 then removeEffect TextStyle.fxBlink
  else if code = 27 then removeEffect TextStyle.fxInverse
  else if code = 28 then removeEffect TextStyle.fxInvisible
  else if code ≥ 30 ∧ code ≤ 37 then -- foreground color
    modify fun s => { s with mForeColor := code - 30 }
  else if code = 39 then -- set default text color
    modify fun s => { s with mForeColor := s.mDefaultForeColor }
  else if code ≥ 40 ∧ code ≤ 47 then -- background color
    modify fun s => { s with mBackColor := code - 40 }
  else if code = 49 then -- set default background color
    modify fun s => { s with mBackColor := s.mDefaultBackColor }
  else if code ≥ 90 ∧ code ≤ 97 then -- bright foreground color
    modify fun s => { s with mForeColor := code - 90 + 8 }
  else if code ≥ 100 ∧ code ≤ 107 then -- bright background color
    modify fun s => { s with mBackColor := code - 100 + 8 }
  else pure ⟨⟩
where
  addEffect (fx : BitVec 32) : EmulatorM Unit :=
    modify fun s => { s with mEffect := s.mEffect ||| fx }
  removeEffect (fx : BitVec 32) : EmulatorM Unit :=
    modify fun s => { s with mEffect := s.mEffect &&& ~~~fx }

/-- `mArgs[i]` -/
def arg (i : Nat) : EmulatorM Int := do
  let s ← get
  if h : i < maxEscapeParameters then return s.mArgs[i]
  else throw (.arrayIndexOutOfBounds .mArgs)

/-- `i+2 <= mArgIndex && mArgs[i+1] == 5` -/
def is256Color (args : Vector Int maxEscapeParameters) (argIndex i : Nat) : Bool :=
  i + 2 ≤ argIndex ∧ args[i + 1]? = some 5

/-- The loop of `selectGraphicRendition` from argument `i` on, which has `mArgIndex + 1 - i`
passes at most. -/
def renditionFrom : Nat → Nat → EmulatorM Unit
  | 0, _ => pure ⟨⟩
  | fuel + 1, i => do
      let s ← get
      if i ≤ s.mArgIndex then
        let code ← arg i
        if code < 0 ∧ s.mArgIndex > 0 then renditionFrom fuel (i + 1)
        else
          let code := if code < 0 then 0 else code
          if code = 38 ∧ is256Color s.mArgs s.mArgIndex i then -- foreground 256 color
            let color ← arg (i + 2)
            when (isValidColor color) (modify fun s => { s with mForeColor := color })
            renditionFrom fuel (i + 3)
          else if code = 48 ∧ is256Color s.mArgs s.mArgIndex i then -- background 256 color
            let color ← arg (i + 2)
            modify fun s => { s with mBackColor := color }
            when (isValidColor color) (modify fun s => { s with mBackColor := color })
            renditionFrom fuel (i + 3)
          else
            applyRendition code
            renditionFrom fuel (i + 1)

/-- The arguments that the loop takes for 256-color backgrounds. -/
def backgroundsFrom (args : Vector Int maxEscapeParameters) (argIndex : Nat) :
    Nat → Nat → List Int
  | 0, _ => []
  | fuel + 1, i =>
      if i ≤ argIndex then
        if args[i]? = some 38 ∧ is256Color args argIndex i then
          backgroundsFrom args argIndex fuel (i + 3)
        else if args[i]? = some 48 ∧ is256Color args argIndex i then
          args[i + 2]?.toList ++ backgroundsFrom args argIndex fuel (i + 3)
        else backgroundsFrom args argIndex fuel (i + 1)
      else []

def backgrounds (s : TerminalEmulator) : List Int :=
  backgroundsFrom s.mArgs s.mArgIndex (s.mArgIndex + 1) 0

def selectGraphicRendition : EmulatorM Unit := do
  renditionFrom ((← get).mArgIndex + 1) 0

def doEscLeftSquareBracket (b : JByte) : EmulatorM Unit := do
  let s ← get
  match toChar b with
  | '@' => insertChars -- ICH Insert Characters
  | 'A' => -- Cursor Up
      setCursorRow (max s.mTopMargin (isub s.mCursorRow (s.getArg0 1)))
  | 'B' => -- Cursor Down
      setCursorRow (min (s.mBottomMargin - 1) (iadd s.mCursorRow (s.getArg0 1)))
  | 'C' => -- Cursor Right
      setCursorCol (min (s.mColumns - 1) (iadd s.mCursorCol (s.getArg0 1)))
  | 'D' => -- Cursor Left
      setCursorCol (max 0 (isub s.mCursorCol (s.getArg0 1)))
  | 'G' => -- Cursor Horizontal Absolute
      setCursorCol (min (max 1 (s.getArg0 1)) s.mColumns - 1)
  | 'H' => setHorizontalVerticalPosition -- Cursor Position
  | 'J' => eraseInDisplay
  | 'K' => eraseInLine
  | 'L' => insertLines
  | 'M' => deleteLines
  | 'P' => deleteChars
  | 'T' => finishSequence -- Mouse tracking
  | 'X' => -- Erase characters
      blockClear s.mCursorCol s.mCursorRow (s.getArg0 0) 1
  | 'Z' => -- Back tab
      setCursorCol (← checked (s.prevTabStop s.mCursorCol))
  | '?' => -- start of a private mode set
      continueSequenceIn .leftSquareBracketQuestionMark
  | 'c' => sendDeviceAttributes
  | 'd' => -- Vert Position Absolute
      setCursorRow (min (max 1 (s.getArg0 1)) s.mRows - 1)
  | 'f' => setHorizontalVerticalPosition
  | 'g' => clearTabStop
  | 'h' => doSetMode true
  | 'l' => doSetMode false
  | 'm' => selectGraphicRendition
  | 'r' => setMargins
  | _ => parseArg b

def getDecFlagsMask (argument : Int) : BitVec 32 :=
  if argument ≥ 1 ∧ argument ≤ 9 then 1 <<< argument.toNat else 0

/-- What the four final bytes of `ESC [ ? Pn` do to the flags; any other byte is part of the
argument. -/
def changeDecFlags (b : JByte) (mask : BitVec 32) : EmulatorM Unit :=
  match toChar b with
  | 'h' => modify fun s => { s with mDecFlags := s.mDecFlags ||| mask } -- DECSET
  | 'l' => modify fun s => { s with mDecFlags := s.mDecFlags &&& ~~~mask } -- DECRST
  | 'r' => -- restore
      modify fun s => { s with
        mDecFlags := (s.mDecFlags &&& ~~~mask) ||| (s.mSavedDecFlags &&& mask) }
  | 's' => -- save
      modify fun s => { s with
        mSavedDecFlags := (s.mSavedDecFlags &&& ~~~mask) ||| (s.mDecFlags &&& mask) }
  | _ => parseArg b

/-- 132 column mode: we don't actually set 132 cols, but we do want the side effect of
clearing the screen and homing the cursor. -/
def clearAndHome : EmulatorM Unit := do
  let s ← get
  blockClear 0 0 s.mColumns s.mRows
  setCursorRowCol 0 0

def doEscLSBQuest (b : JByte) : EmulatorM Unit := do
  let mask := getDecFlagsMask ((← get).getArg0 0)
  changeDecFlags b mask
  when (mask &&& k132ColumnModeMask ≠ 0) clearAndHome
  -- origin mode: home the cursor
  when (mask &&& kOriginModeMask ≠ 0) (setCursorPosition 0 0)

/-! ## `ESC ]` -/

/-- `collectOSCArgs`; a byte that does not fit ends the sequence. -/
def collectOSCArgs (b : JByte) : EmulatorM Unit := do
  let s ← get
  if s.mOSCArg.length < maxOscStringLength then
    set { s with mOSCArg := s.mOSCArg ++ [b] }
    continueSequence
  else finishSequence

/-- `nextOSCInt(delimiter)` from `value` on: the number, and the bytes behind the delimiter. -/
def nextOSCInt (delimiter : JByte) : List JByte → Int → Int × List JByte
  | [], value => (value, [])
  | b :: rest, value =>
      if b = delimiter then (value, rest)
      else if isDigit b then
        let value := if value < 0 then 0 else value
        nextOSCInt delimiter rest (isub (iadd (imul value 10) b.toNat) 48)
      else nextOSCInt delimiter rest value

/-- `nextOSCString(-1)` over bytes that it stops at the first `0xff` of. -/
def nextOSCString (bytes : List JByte) : List JChar :=
  match bytes.takeWhile (· ≠ 0xff) with
  | [] => []
  | bytes => Platform.newString bytes

def changeTitle (parameter : Int) (title : List JChar) : EmulatorM Unit :=
  modify fun s =>
    if parameter = 0 ∨ parameter = 2 then
      { s with mSession := { s.mSession with title := some title } }
    else s

def doOSC : EmulatorM Unit := do
  let (ps, rest) := nextOSCInt 59 (← get).mOSCArg (-1)
  when (ps = 0 ∨ ps = 1 ∨ ps = 2) (changeTitle ps (nextOSCString rest))
  finishSequence

def doEscRightSquareBracket (b : JByte) : EmulatorM Unit :=
  match b.toNat with
  | 0x7 => doOSC
  | 0x1b => -- Esc, probably start of Esc \ sequence
      continueSequenceIn .rightSquareBracketEsc
  | _ => collectOSCArgs b

def doEscRightSquareBracketEsc (b : JByte) : EmulatorM Unit := do
  if b = 92 then doOSC
  else
    -- The ESC character was not followed by a \, so insert the ESC and the current
    -- character in arg buffer.
    collectOSCArgs 0x1b
    collectOSCArgs b
    continueSequenceIn .rightSquareBracket

end Kbox.Emulatorview.TerminalEmulator
