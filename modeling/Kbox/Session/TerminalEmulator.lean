import Kbox.Session.TranscriptScreen

/-!
# `kevinboone.androidterm.session.TerminalEmulator`

The emulator over `TranscriptScreen`: cursor, margins and colours, the escape
sequences, and the calls of the session.

Arithmetic with an argument of an escape sequence wraps (`iadd`, `isub`, `imul`).
Sums of cursor coordinates, margins and sizes, which index arrays, are exact.
Colours are combined by masks and never negative.  The G0 and G1 character sets
are parsed and forgotten, as in the source; logging, which is compiled out, and
the count of processed characters that it prints are left out.
-/

namespace Kbox.Session

open Kbox.Framework

/-- The escape processing states. -/
inductive EscapeState where
  | none
  | esc
  | pound
  | selectLeftParen
  | selectRightParen
  | leftSquareBracket
  | leftSquareBracketQuestionMark
deriving DecidableEq, Repr

abbrev maxEscapeParameters : Nat := 16

/-- Sums of a cursor coordinate and 1 are exact: they wrap in a coordinate at an end of the `int`
range only, where no cursor is but behind an overflow of `CUD` or `CUF`. -/
structure TerminalEmulator where
  mCursorRow : Int
  mCursorCol : Int
  mRows : Int
  mColumns : Int
  /-- What was written to `mTermOut`. -/
  mTermOut : List JByte
  mScreen : TranscriptScreen
  mArgIndex : Nat
  mArgs : Vector Int maxEscapeParameters
  mContinueSequence : Bool
  mEscapeState : EscapeState
  mSavedCursorRow : Int
  mSavedCursorCol : Int
  mDecFlags : BitVec 32
  mSavedDecFlags : BitVec 32
  mInsertMode : Bool
  mAutomaticNewlineMode : Bool
  mTabStop : List Bool
  mTopMargin : Int
  mBottomMargin : Int
  mAboutToAutoWrap : Bool
  /-- 0..7, mask with 8 for bold -/
  mForeColor : Nat
  /-- 0..7, mask with 8 for underline -/
  mBackColor : Nat
  mInverseColors : Bool
  mbKeypadApplicationMode : Bool
  mAlternateCharSet : Bool
  mScrollCounter : Int
deriving DecidableEq

/-- A method of the emulator. -/
abbrev EmulatorM (α : Type) : Type := EStateM Exn TerminalEmulator α

namespace TerminalEmulator

def k132ColumnModeMask : BitVec 32 := 1 <<< 3
def kOriginModeMask : BitVec 32 := 1 <<< 6
def kWraparoundModeMask : BitVec 32 := 1 <<< 7

/-- A call on `mScreen`. -/
def onScreen {α : Type} (x : ScreenM α) : EmulatorM α :=
  onField mScreen (fun screen s => { s with mScreen := screen }) x

def getForeColor (s : TerminalEmulator) : Nat :=
  if s.mInverseColors then (s.mBackColor &&& 0x7) ||| (s.mForeColor &&& 0x8) else s.mForeColor

def getBackColor (s : TerminalEmulator) : Nat :=
  if s.mInverseColors then (s.mForeColor &&& 0x7) ||| (s.mBackColor &&& 0x8) else s.mBackColor

/-! ## The cursor -/

def setCursorRow (row : Int) : EmulatorM Unit :=
  modify fun s => { s with mCursorRow := row, mAboutToAutoWrap := false }

def setCursorCol (col : Int) : EmulatorM Unit :=
  modify fun s => { s with mCursorCol := col, mAboutToAutoWrap := false }

def setCursorRowCol (row col : Int) : EmulatorM Unit :=
  modify fun s => { s with
    mCursorRow := min row (s.mRows - 1)
    mCursorCol := min col (s.mColumns - 1)
    mAboutToAutoWrap := false }

def setCursorPosition (x y : Int) : EmulatorM Unit := do
  let s ← get
  let originMode : Bool := s.mDecFlags &&& kOriginModeMask ≠ 0
  let effectiveTopMargin := if originMode then s.mTopMargin else 0
  let effectiveBottomMargin := if originMode then s.mBottomMargin else s.mRows
  let newRow := max effectiveTopMargin
    (min (iadd effectiveTopMargin y) (effectiveBottomMargin - 1))
  let newCol := max 0 (min x (s.mColumns - 1))
  setCursorRowCol newRow newCol

/-- The first tab stop among the columns `i`, `i + 1`, ... below `mColumns`. -/
def tabStopFrom (tabStop : List Bool) (columns : Int) : Nat → Int → Except Exn Int
  | 0, _ => .ok (columns - 1)
  | fuel + 1, i =>
      if i < columns then do
        if ← arrayGet (.arrayIndexOutOfBounds .mTabStop) tabStop i then return i
        else tabStopFrom tabStop columns fuel (i + 1)
      else .ok (columns - 1)

/-- The search starts at the cursor itself. -/
def nextTabStop (s : TerminalEmulator) (cursorCol : Int) : Except Exn Int :=
  tabStopFrom s.mTabStop s.mColumns (s.mColumns - cursorCol).toNat cursorCol

/-- `mTabStop[i] = value` -/
def setTabStop (i : Int) (value : Bool) : EmulatorM Unit := do
  let s ← get
  let tabStop ← checked (arraySet (.arrayIndexOutOfBounds .mTabStop) s.mTabStop i value)
  set { s with mTabStop := tabStop }

/-- `(i & 7) == 0 && i != 0`, for every column. -/
def defaultTabStops (s : TerminalEmulator) : TerminalEmulator :=
  { s with mTabStop := (List.range s.mColumns.toNat).map fun i => decide (i % 8 = 0 ∧ i ≠ 0) }

def setDefaultTabStops : EmulatorM Unit := modify defaultTabStops

/-! ## Drawing -/

def scroll : EmulatorM Unit := do
  modify fun s => { s with mScrollCounter := iadd s.mScrollCounter 1 }
  let s ← get
  onScreen (TranscriptScreen.scroll s.mTopMargin s.mBottomMargin s.getForeColor s.getBackColor)

def doLinefeed : EmulatorM Unit := do
  let s ← get
  let newCursorRow := s.mCursorRow + 1
  if newCursorRow ≥ s.mBottomMargin then
    scroll
    setCursorRow (s.mBottomMargin - 1)
  else setCursorRow newCursorRow

def blockClear (sx sy w h : Int) : EmulatorM Unit := do
  let s ← get
  onScreen (TranscriptScreen.blockSet sx sy w h 32 s.getForeColor s.getBackColor)

/-- The cursor moves to a new row before a character that does not fit behind it. -/
def wrapCursor : EmulatorM Unit := do
  let s ← get
  if s.mCursorCol = s.mColumns - 1 ∧ s.mAboutToAutoWrap then
    onScreen (TranscriptScreen.setLineWrap s.mCursorRow)
    modify fun s => { s with mCursorCol := 0 }
    if s.mCursorRow + 1 < s.mBottomMargin then
      modify fun s => { s with mCursorRow := s.mCursorRow + 1 }
    else scroll

/-- Insert mode: move character to right one space. -/
def moveRight : EmulatorM Unit := do
  let s ← get
  let destCol := s.mCursorCol + 1
  if destCol < s.mColumns then
    onScreen (TranscriptScreen.blockCopy s.mCursorCol s.mCursorRow (s.mColumns - destCol) 1
      destCol s.mCursorRow)

/-- `emit(b)`; auto wrap is always enabled. -/
def emit (b : JByte) : EmulatorM Unit := do
  wrapCursor
  when (← get).mInsertMode moveRight
  let s ← get
  onScreen (TranscriptScreen.set s.mCursorCol s.mCursorRow b.toInt s.getForeColor s.getBackColor)
  modify fun s => { s with
    mAboutToAutoWrap := decide (s.mCursorCol = s.mColumns - 1)
    mCursorCol := min (s.mCursorCol + 1) (s.mColumns - 1) }

/-! ## Sequences and their arguments -/

/-- A byte, as the `switch` statements compare it with characters. -/
def toChar (b : JByte) : Char := Char.ofNat b.toNat

def startEscapeSequence (escapeState : EscapeState) : EmulatorM Unit :=
  modify fun s => { s with
    mEscapeState := escapeState
    mArgIndex := 0
    mArgs := Vector.replicate maxEscapeParameters (-1) }

/-- `continueSequence()` -/
def continueSequence : EmulatorM Unit :=
  modify fun s => { s with mContinueSequence := true }

/-- `continueSequence(state)` -/
def continueSequenceIn (state : EscapeState) : EmulatorM Unit :=
  modify fun s => { s with mEscapeState := state, mContinueSequence := true }

/-- Also what `unknownSequence` and `unimplementedSequence` do. -/
def finishSequence : EmulatorM Unit :=
  modify fun s => { s with mEscapeState := .none }

/-- `oldValue * 10 + thisDigit`, or the digit if it is the first. -/
def appendDigit (oldValue : Int) (b : JByte) : Int :=
  let thisDigit : Int := b.toNat - 48
  if oldValue ≥ 0 then iadd (imul oldValue 10) thisDigit else thisDigit

def isDigit (b : JByte) : Bool := 48 ≤ b.toNat ∧ b.toNat ≤ 57

def parseArg (b : JByte) : EmulatorM Unit := do
  if isDigit b then
    modify fun s => { s with
      mArgs := if h : s.mArgIndex < maxEscapeParameters then
          s.mArgs.set s.mArgIndex (appendDigit s.mArgs[s.mArgIndex] b)
        else s.mArgs }
    continueSequence
  else if toChar b = ';' then
    modify fun s => { s with
      mArgIndex := if s.mArgIndex < maxEscapeParameters then s.mArgIndex + 1 else s.mArgIndex }
    continueSequence
  else finishSequence

def getArg (s : TerminalEmulator) (index : Fin maxEscapeParameters) (defaultValue : Int) : Int :=
  if s.mArgs[index] < 0 then defaultValue else s.mArgs[index]

section Arguments

local instance neZero_maxEscapeParameters : NeZero maxEscapeParameters := ⟨by decide⟩

def getArg0 (s : TerminalEmulator) (defaultValue : Int) : Int := s.getArg 0 defaultValue

def getArg1 (s : TerminalEmulator) (defaultValue : Int) : Int := s.getArg 1 defaultValue

end Arguments

/-! ## `ESC` -/

def setAltCharSet (alternateCharSet : Bool) : EmulatorM Unit :=
  modify fun s => { s with mAlternateCharSet := alternateCharSet }

/-- `doSelectCharSet`, for either set: the sets that are known are not selected. -/
def doSelectCharSet (b : JByte) : EmulatorM Unit :=
  if toChar b ∈ ['A', 'B', '0', '1', '2'] then pure ⟨⟩ else finishSequence

def doEscSelectLeftParen (b : JByte) : EmulatorM Unit := doSelectCharSet b

def doEscSelectRightParen (b : JByte) : EmulatorM Unit := doSelectCharSet b

def doEscPound (b : JByte) : EmulatorM Unit := do
  match toChar b with
  | '8' => -- DECALN alignment test
      let s ← get
      onScreen (TranscriptScreen.blockSet 0 0 s.mColumns s.mRows 69 s.getForeColor s.getBackColor)
  | _ => finishSequence

def reverseIndex : EmulatorM Unit := do
  let s ← get
  if s.mCursorRow ≤ s.mTopMargin then
    onScreen (TranscriptScreen.blockCopy 0 s.mTopMargin s.mColumns
      (s.mBottomMargin - (s.mTopMargin + 1)) 0 (s.mTopMargin + 1))
    blockClear 0 s.mTopMargin s.mColumns 1
  else set { s with mCursorRow := s.mCursorRow - 1 }

/-- VT100 with advanced video options -/
def deviceAttributes : List JByte := [27, 91, 63, 49, 59, 50, 99]

def sendDeviceAttributes : EmulatorM Unit :=
  modify fun s => { s with mTermOut := s.mTermOut ++ deviceAttributes }

def doEsc (b : JByte) : EmulatorM Unit := do
  match toChar b with
  | '#' => continueSequenceIn .pound
  | '(' => continueSequenceIn .selectLeftParen
  | ')' => continueSequenceIn .selectRightParen
  | '7' => -- DECSC save cursor
      modify fun s => { s with
        mSavedCursorRow := s.mCursorRow
        mSavedCursorCol := s.mCursorCol }
  | '8' => -- DECRC restore cursor
      let s ← get
      setCursorRowCol s.mSavedCursorRow s.mSavedCursorCol
  | 'D' => doLinefeed -- INDEX
  | 'E' => -- NEL
      setCursorCol 0
      doLinefeed
  | 'F' => -- Cursor to lower-left corner of screen
      setCursorRowCol 0 ((← get).mBottomMargin - 1)
  | 'H' => -- Tab set
      setTabStop (← get).mCursorCol true
  | 'M' => reverseIndex
  | 'Z' => sendDeviceAttributes -- return terminal ID
  | '[' => continueSequenceIn .leftSquareBracket
  | '=' => -- DECKPAM
      modify fun s => { s with mbKeypadApplicationMode := true }
  | '>' => -- DECKPNM
      modify fun s => { s with mbKeypadApplicationMode := false }
  | _ => finishSequence

/-! ## `ESC [` -/

/-- ICH -/
def insertChars : EmulatorM Unit := do
  let s ← get
  let charsAfterCursor := s.mColumns - s.mCursorCol
  let charsToInsert := min (s.getArg0 1) charsAfterCursor
  let charsToMove := charsAfterCursor - charsToInsert
  onScreen (TranscriptScreen.blockCopy s.mCursorCol s.mCursorRow charsToMove 1
    (s.mCursorCol + charsToInsert) s.mCursorRow)
  blockClear s.mCursorCol s.mCursorRow charsToInsert 1

/-- DCH -/
def deleteChars : EmulatorM Unit := do
  let s ← get
  let charsAfterCursor := s.mColumns - s.mCursorCol
  let charsToDelete := min (s.getArg0 1) charsAfterCursor
  let charsToMove := charsAfterCursor - charsToDelete
  onScreen (TranscriptScreen.blockCopy (s.mCursorCol + charsToDelete) s.mCursorRow charsToMove 1
    s.mCursorCol s.mCursorRow)
  blockClear (s.mCursorCol + charsToMove) s.mCursorRow charsToDelete 1

/-- IL -/
def insertLines : EmulatorM Unit := do
  let s ← get
  let linesAfterCursor := s.mBottomMargin - s.mCursorRow
  let linesToInsert := min (s.getArg0 1) linesAfterCursor
  let linesToMove := linesAfterCursor - linesToInsert
  onScreen (TranscriptScreen.blockCopy 0 s.mCursorRow s.mColumns linesToMove 0
    (s.mCursorRow + linesToInsert))
  blockClear 0 s.mCursorRow s.mColumns linesToInsert

/-- DL -/
def deleteLines : EmulatorM Unit := do
  let s ← get
  let linesAfterCursor := s.mBottomMargin - s.mCursorRow
  let linesToDelete := min (s.getArg0 1) linesAfterCursor
  let linesToMove := linesAfterCursor - linesToDelete
  onScreen (TranscriptScreen.blockCopy 0 (s.mCursorRow + linesToDelete) s.mColumns linesToMove 0
    s.mCursorRow)
  blockClear 0 (s.mCursorRow + linesToMove) s.mColumns linesToDelete

/-- ED, within the scrolling margins. -/
def eraseInDisplay : EmulatorM Unit := do
  let s ← get
  match s.getArg0 0 with
  | 0 => -- Clear below
      blockClear s.mCursorCol s.mCursorRow (s.mColumns - s.mCursorCol) 1
      blockClear 0 (s.mCursorRow + 1) s.mColumns (s.mBottomMargin - (s.mCursorRow + 1))
  | 1 => -- Erase from the start of the screen to the cursor.
      blockClear 0 s.mTopMargin s.mColumns (s.mCursorRow - s.mTopMargin)
      blockClear 0 s.mCursorRow (s.mCursorCol + 1) 1
  | 2 => -- Clear all
      blockClear 0 s.mTopMargin s.mColumns (s.mBottomMargin - s.mTopMargin)
  | _ => finishSequence

/-- EL -/
def eraseInLine : EmulatorM Unit := do
  let s ← get
  match s.getArg0 0 with
  | 0 => -- Clear to right
      blockClear s.mCursorCol s.mCursorRow (s.mColumns - s.mCursorCol) 1
  | 1 => -- Erase start of line to cursor (including cursor)
      blockClear 0 s.mCursorRow (s.mCursorCol + 1) 1
  | 2 => -- Clear whole line
      blockClear 0 s.mCursorRow s.mColumns 1
  | _ => finishSequence

def clearTabStop : EmulatorM Unit := do
  let s ← get
  match s.getArg0 0 with
  | 0 => setTabStop s.mCursorCol false
  | 3 => -- The loop over the columns stops at the end of the array
      set { s with mTabStop := List.replicate (min s.mColumns.toNat s.mTabStop.length) false ++
        s.mTabStop.drop s.mColumns.toNat }
      throwIf (s.mTabStop.length < s.mColumns) (.arrayIndexOutOfBounds .mTabStop)
  | _ => pure ⟨⟩ -- Specified to have no effect.

/-- `unknownParameter` only logs. -/
def doSetMode (newValue : Bool) : EmulatorM Unit := do
  match (← get).getArg0 0 with
  | 4 => modify fun s => { s with mInsertMode := newValue }
  | 20 => modify fun s => { s with mAutomaticNewlineMode := newValue }
  | _ => pure ⟨⟩

/-- Parameters are Row ; Column -/
def setHorizontalVerticalPosition : EmulatorM Unit := do
  let s ← get
  setCursorPosition (s.getArg1 1 - 1) (s.getArg0 1 - 1)

/-- DECSTBM.  The escape sequence numbers top 1..23, but we number top 0..22; we store the
first line below the bottom-most scrolling line. -/
def setMargins : EmulatorM Unit := do
  let s ← get
  let top := max 0 (min (s.getArg0 1 - 1) (s.mRows - 2))
  let bottom := max (top + 2) (min (s.getArg1 s.mRows) s.mRows)
  modify fun s => { s with mTopMargin := top, mBottomMargin := bottom }
  -- The cursor is placed in the home position
  setCursorRowCol top 0

/-- The colours after one argument of SGR. -/
def applyRendition (code : Int) (s : TerminalEmulator) : TerminalEmulator :=
  if code = 0 then -- reset
    { s with mInverseColors := false, mForeColor := 7, mBackColor := 0 }
  else if code = 1 then { s with mForeColor := s.mForeColor ||| 0x8 } -- bold
  else if code = 4 then { s with mBackColor := s.mBackColor ||| 0x8 } -- underscore
  else if code = 7 then { s with mInverseColors := true } -- inverse
  else if code = 22 then { s with mForeColor := s.mForeColor &&& 0x7 }
  else if code = 24 then { s with mBackColor := s.mBackColor &&& 0x7 } -- underline: none
  else if code = 27 then { s with mInverseColors := false } -- image: positive
  else if code ≥ 30 ∧ code ≤ 37 then -- foreground color
    { s with mForeColor := (s.mForeColor &&& 0x8) ||| (code - 30).toNat }
  else if code = 39 then -- set default text color
    { s with mForeColor := 7, mBackColor := s.mBackColor &&& 0x7 }
  else if code ≥ 40 ∧ code ≤ 47 then -- background color
    { s with mBackColor := (s.mBackColor &&& 0x8) ||| (code - 40).toNat }
  else if code = 49 then -- color 0, but preserve underscore.
    { s with mBackColor := s.mBackColor &&& 0x8 }
  else s

/-- The loop of `selectGraphicRendition` from argument `i` on. -/
def renditionFrom : Nat → Nat → EmulatorM Unit
  | 0, _ => pure ⟨⟩
  | fuel + 1, i => do
      let s ← get
      if h : i < maxEscapeParameters then
        let code := s.mArgs[i]
        if code < 0 ∧ s.mArgIndex > 0 then renditionFrom fuel (i + 1)
        else
          modify (applyRendition (if code < 0 then 0 else code))
          renditionFrom fuel (i + 1)
      else throw (.arrayIndexOutOfBounds .mArgs)

def selectGraphicRendition : EmulatorM Unit := do
  renditionFrom ((← get).mArgIndex + 1) 0

def doEscLeftSquareBracket (b : JByte) : EmulatorM Unit := do
  let s ← get
  match toChar b with
  | '@' => insertChars -- ICH Insert Characters
  | 'A' => -- Cursor Up
      setCursorRow (max s.mTopMargin (isub s.mCursorRow (s.getArg0 1)))
  | 'B' => -- Cursor Down
      setCursorRow (min (s.mBottomMargin - 1) (iadd s.mCursorRow (s.getArg0 1)))
  | 'C' => -- Cursor Right
      setCursorCol (min (s.mColumns - 1) (iadd s.mCursorCol (s.getArg0 1)))
  | 'D' => -- Cursor Left
      setCursorCol (max 0 (isub s.mCursorCol (s.getArg0 1)))
  | 'G' => -- Cursor Horizontal Absolute
      setCursorCol (min (max 1 (s.getArg0 1)) s.mColumns - 1)
  | 'H' => setHorizontalVerticalPosition -- Cursor Position
  | 'J' => eraseInDisplay
  | 'K' => eraseInLine
  | 'L' => insertLines
  | 'M' => deleteLines
  | 'P' => deleteChars
  | 'T' => finishSequence -- Mouse tracking
  | '?' => -- start of a private mode set
      continueSequenceIn .leftSquareBracketQuestionMark
  | 'c' => sendDeviceAttributes
  | 'd' => -- Vert Position Absolute
      setCursorRow (min (max 1 (s.getArg0 1)) s.mRows - 1)
  | 'f' => setHorizontalVerticalPosition
  | 'g' => clearTabStop
  | 'h' => doSetMode true
  | 'l' => doSetMode false
  | 'm' => selectGraphicRendition
  | 'r' => setMargins
  | _ => parseArg b

def getDecFlagsMask (argument : Int) : BitVec 32 :=
  if argument ≥ 1 ∧ argument ≤ 9 then 1 <<< argument.toNat else 0

/-- What the four final bytes of `ESC [ ? Pn` do to the flags; any other byte is part of the
argument. -/
def changeDecFlags (b : JByte) (mask : BitVec 32) : EmulatorM Unit :=
  match toChar b with
  | 'h' => modify fun s => { s with mDecFlags := s.mDecFlags ||| mask } -- DECSET
  | 'l' => modify fun s => { s with mDecFlags := s.mDecFlags &&& ~~~mask } -- DECRST
  | 'r' => -- restore
      modify fun s => { s with
        mDecFlags := (s.mDecFlags &&& ~~~mask) ||| (s.mSavedDecFlags &&& mask) }
  | 's' => -- save
      modify fun s => { s with
        mSavedDecFlags := (s.mSavedDecFlags &&& ~~~mask) ||| (s.mDecFlags &&& mask) }
  | _ => parseArg b

/-- 132 column mode: we don't actually set 132 cols, but we do want the side effect of
clearing the screen and homing the cursor. -/
def clearAndHome : EmulatorM Unit := do
  let s ← get
  blockClear 0 0 s.mColumns s.mRows
  setCursorRowCol 0 0

def doEscLSBQuest (b : JByte) : EmulatorM Unit := do
  let mask := getDecFlagsMask ((← get).getArg0 0)
  changeDecFlags b mask
  when (mask &&& k132ColumnModeMask ≠ 0) clearAndHome
  -- origin mode: home the cursor
  when (mask &&& kOriginModeMask ≠ 0) (setCursorPosition 0 0)

/-! ## Bytes, resets and resizes -/

/-- The inner `switch` of `process`, on the escape state. -/
def processInState (b : JByte) : EmulatorM Unit := do
  match (← get).mEscapeState with
  | .none => when (b.toInt ≥ 32) (emit b)
  | .esc => doEsc b
  | .pound => doEscPound b
  | .selectLeftParen => doEscSelectLeftParen b
  | .selectRightParen => doEscSelectRightParen b
  | .leftSquareBracket => doEscLeftSquareBracket b
  | .leftSquareBracketQuestionMark => doEscLSBQuest b

def process (b : JByte) : EmulatorM Unit := do
  match b.toNat with
  | 0 | 7 => pure ⟨⟩ -- NUL, BEL
  | 8 => -- BS
      setCursorCol (max 0 ((← get).mCursorCol - 1))
  | 9 => -- HT: move to next tab stop, but not past edge of screen
      let s ← get
      setCursorCol (← checked (s.nextTabStop s.mCursorCol))
  | 13 => setCursorCol 0
  | 10 | 11 | 12 => doLinefeed
  | 14 => setAltCharSet true -- SO
  | 15 => setAltCharSet false -- SI
  | 24 | 26 => -- CAN, SUB
      if (← get).mEscapeState ≠ .none then
        finishSequence
        emit 127
  | 27 => startEscapeSequence .esc -- ESC always starts an escape sequence
  | 0x9b => startEscapeSequence .leftSquareBracket -- CSI
  | _ =>
      modify fun s => { s with mContinueSequence := false }
      processInState b
      when (¬ (← get).mContinueSequence) finishSequence

/-- The assignments of `reset`. -/
def resetFields (s : TerminalEmulator) : TerminalEmulator :=
  { s with
    mCursorRow := 0
    mCursorCol := 0
    mArgIndex := 0
    mContinueSequence := false
    mEscapeState := .none
    mSavedCursorRow := 0
    mSavedCursorCol := 0
    mDecFlags := 0
    mSavedDecFlags := 0
    mInsertMode := false
    mAutomaticNewlineMode := false
    mTopMargin := 0
    mBottomMargin := s.mRows
    mAboutToAutoWrap := false
    mForeColor := 7
    mBackColor := 0
    mInverseColors := false
    mbKeypadApplicationMode := false
    mAlternateCharSet := false }

def reset : EmulatorM Unit := do
  modify resetFields
  setDefaultTabStops
  let s ← get
  blockClear 0 0 s.mColumns s.mRows

/-- The fields in front of the `reset()` at the end of the constructor. -/
def allocate (screen : TranscriptScreen) (columns rows : Nat) : TerminalEmulator where
  mCursorRow := 0
  mCursorCol := 0
  mRows := rows
  mColumns := columns
  mTermOut := []
  mScreen := screen
  mArgIndex := 0
  mArgs := Vector.replicate maxEscapeParameters 0
  mContinueSequence := false
  mEscapeState := .none
  mSavedCursorRow := 0
  mSavedCursorCol := 0
  mDecFlags := 0
  mSavedDecFlags := 0
  mInsertMode := false
  mAutomaticNewlineMode := false
  mTabStop := List.replicate columns false
  mTopMargin := 0
  mBottomMargin := 0
  mAboutToAutoWrap := false
  mForeColor := 0
  mBackColor := 0
  mInverseColors := false
  mbKeypadApplicationMode := false
  mAlternateCharSet := false
  mScrollCounter := 0

/-- `new TerminalEmulator(new TranscriptScreen(columns, totalRows, rows, 0, 7), columns, rows,
termOut)`, as `TermSession` has it. -/
def create (columns totalRows rows : Nat) : Except Exn TerminalEmulator := do
  let screen ← TranscriptScreen.create columns totalRows rows 0 7
  construct reset (allocate screen columns rows)

/-- The sizes, the margins and the tab stops.  The loop that moves the cursor into the new
columns is left out: the cursor is homed right behind it. -/
def setSize (columns rows : Int) : EmulatorM Unit := do
  modify fun s =>
    if s.mRows ≠ rows then { s with mRows := rows, mTopMargin := 0, mBottomMargin := rows }
    else s
  modify fun s =>
    if s.mColumns ≠ columns then { s with
        mColumns := columns
        mTabStop := s.mTabStop.take columns.toNat ++
          List.replicate (columns.toNat - s.mTabStop.length) false }
    else s

/-- The loop of `updateSize` that emits the transcript. -/
def replay : List JChar → EmulatorM Unit
  | [] => pure ⟨⟩
  | c :: rest => do
      let b : JByte := c.setWidth 8
      if b = 10 then
        setCursorCol 0
        doLinefeed
        replay rest
      else
        emit b
        replay rest

def updateSize (columns rows : Int) : EmulatorM Unit := do
  let s ← get
  if s.mRows = rows ∧ s.mColumns = columns then return
  throwIf (columns ≤ 0) .illegalArgument
  throwIf (rows ≤ 0) .illegalArgument
  let transcriptText ← onScreen TranscriptScreen.getTranscriptText
  onScreen (TranscriptScreen.resize columns.toNat rows.toNat s.mForeColor s.mBackColor)
  setSize columns rows
  modify fun s => { s with mCursorRow := 0, mCursorCol := 0, mAboutToAutoWrap := false }
  replay (transcriptText.reverse.dropWhile (· = 10)).reverse

/-! ## Runs -/

/-- A call of the session. -/
inductive Call where
  | byte (b : JByte)
  | updateSize (columns rows : Int)
  | reset

def Call.body : Call → EmulatorM Unit
  | .byte b => process b
  | .updateSize columns rows => TerminalEmulator.updateSize columns rows
  | .reset => TerminalEmulator.reset

/-- `append(buffer, base, length)`, which catches the exceptions of `process`. -/
def append (bytes : List JByte) (s : TerminalEmulator) : TerminalEmulator :=
  bytes.foldl (fun s b => after (process b) s) s

/-- The emulator after a sequence of calls. -/
def run (calls : List Call) (s : TerminalEmulator) : TerminalEmulator :=
  calls.foldl (fun s call => after call.body s) s

end TerminalEmulator

end Kbox.Session
