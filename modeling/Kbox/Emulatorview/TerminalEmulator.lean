import Kbox.Emulatorview.TranscriptScreen

/-!
# `jackpal.androidterm.emulatorview.TerminalEmulator`

The fields, and the operations that move the cursor and draw: everything the
escape sequences are made of.

Arithmetic with an argument of an escape sequence wraps (`iadd`, `isub`).  Sums
of cursor coordinates, margins and sizes, which index arrays, are exact.
Logging, which is compiled out, is left out.
-/

namespace Kbox.Emulatorview

open Kbox.Framework

/-- The escape processing states. -/
inductive EscapeState where
  | none
  | esc
  | pound
  | selectLeftParen
  | selectRightParen
  | leftSquareBracket
  | leftSquareBracketQuestionMark
  | percent
  | rightSquareBracket
  | rightSquareBracketEsc
deriving DecidableEq, Repr

inductive CharSet where
  | uk | ascii | specialGraphics | altStandard | altSpecialGraphics
deriving DecidableEq, Repr

/-- `ByteBuffer` and `CharBuffer`, whose limit never leaves their capacity. -/
structure Buffer (α : Type) where
  array : List α
  position : Nat
deriving DecidableEq, Repr

/-- What the emulator does to the session it is bound to. -/
structure SessionLog where
  title : Option (List JChar)
  written : List JByte
deriving DecidableEq, Repr

abbrev maxEscapeParameters : Nat := 16

abbrev maxOscStringLength : Nat := 512

/-- Sums of a cursor coordinate and 1 are exact: they wrap in a coordinate at an end of the `int`
range only, where no cursor is but behind an overflow of `CUD` or `CUF`. -/
structure TerminalEmulator where
  mCursorRow : Int
  mCursorCol : Int
  mRows : Int
  mColumns : Int
  mScreen : TranscriptScreen
  mSession : SessionLog
  mArgIndex : Nat
  mArgs : Vector Int maxEscapeParameters
  /-- The first `mOSCArgLength` bytes of the array. -/
  mOSCArg : List JByte
  mContinueSequence : Bool
  mEscapeState : EscapeState
  mSavedCursorRow : Int
  mSavedCursorCol : Int
  mSavedEffect : BitVec 32
  mSavedDecFlags_DECSC_DECRC : BitVec 32
  mDecFlags : BitVec 32
  mSavedDecFlags : BitVec 32
  mInsertMode : Bool
  mAutomaticNewlineMode : Bool
  mTabStop : List Bool
  mTopMargin : Int
  mBottomMargin : Int
  mAboutToAutoWrap : Bool
  mLastEmittedCharWidth : Int
  mJustWrapped : Bool
  mForeColor : Int
  mDefaultForeColor : Int
  mBackColor : Int
  mDefaultBackColor : Int
  mEffect : BitVec 32
  mbKeypadApplicationMode : Bool
  mAlternateCharSet : Bool
  mCharSet : CharSet × CharSet
  mUseAlternateCharSet : Bool
  mScrollCounter : Int
  mDefaultUTF8Mode : Bool
  mUTF8Mode : Bool
  mUTF8EscapeUsed : Bool
  mUTF8ToFollow : Int
  mUTF8ByteBuffer : Buffer JByte
  mInputCharBuffer : Buffer JChar
deriving DecidableEq

/-- A method of the emulator. -/
abbrev EmulatorM (α : Type) : Type := EStateM Exn TerminalEmulator α

namespace TerminalEmulator

def k132ColumnModeMask : BitVec 32 := 1 <<< 3
def kOriginModeMask : BitVec 32 := 1 <<< 6
def kWraparoundModeMask : BitVec 32 := 1 <<< 7
def kDecscDecrcMask : BitVec 32 := kOriginModeMask ||| kWraparoundModeMask

/-- A call on `mScreen`. -/
def onScreen {α : Type} (x : ScreenM α) : EmulatorM α :=
  onField mScreen (fun screen s => { s with mScreen := screen }) x

def getStyle (s : TerminalEmulator) : Style :=
  TextStyle.encode s.mForeColor s.mBackColor s.mEffect

/-! ## The cursor -/

def setCursorRow (row : Int) : EmulatorM Unit :=
  modify fun s => { s with mCursorRow := row, mAboutToAutoWrap := false }

def setCursorCol (col : Int) : EmulatorM Unit :=
  modify fun s => { s with mCursorCol := col, mAboutToAutoWrap := false }

def setCursorRowCol (row col : Int) : EmulatorM Unit :=
  modify fun s => { s with
    mCursorRow := min row (s.mRows - 1)
    mCursorCol := min col (s.mColumns - 1)
    mAboutToAutoWrap := false }

def setCursorPosition (x y : Int) : EmulatorM Unit := do
  let s ← get
  let originMode : Bool := s.mDecFlags &&& kOriginModeMask ≠ 0
  let effectiveTopMargin := if originMode then s.mTopMargin else 0
  let effectiveBottomMargin := if originMode then s.mBottomMargin else s.mRows
  let newRow := max effectiveTopMargin
    (min (iadd effectiveTopMargin y) (effectiveBottomMargin - 1))
  let newCol := max 0 (min x (s.mColumns - 1))
  setCursorRowCol newRow newCol

/-- The first tab stop among the columns `i`, `i + 1`, ... below `mColumns`. -/
def tabStopFrom (tabStop : List Bool) (columns : Int) : Nat → Int → Except Exn Int
  | 0, _ => .ok (columns - 1)
  | fuel + 1, i =>
      if i < columns then do
        if ← arrayGet (.arrayIndexOutOfBounds .mTabStop) tabStop i then return i
        else tabStopFrom tabStop columns fuel (i + 1)
      else .ok (columns - 1)

def nextTabStop (s : TerminalEmulator) (cursorCol : Int) : Except Exn Int :=
  tabStopFrom s.mTabStop s.mColumns (s.mColumns - (cursorCol + 1)).toNat (cursorCol + 1)

/-- The first tab stop among the columns `n - 1`, `n - 2`, ..., 0. -/
def tabStopBelow (tabStop : List Bool) : Nat → Except Exn Int
  | 0 => .ok 0
  | i + 1 => do
      if ← arrayGet (.arrayIndexOutOfBounds .mTabStop) tabStop i then return i
      else tabStopBelow tabStop i

def prevTabStop (s : TerminalEmulator) (cursorCol : Int) : Except Exn Int :=
  tabStopBelow s.mTabStop cursorCol.toNat

/-- `mTabStop[i] = value` -/
def setTabStop (i : Int) (value : Bool) : EmulatorM Unit := do
  let s ← get
  let tabStop ← checked (arraySet (.arrayIndexOutOfBounds .mTabStop) s.mTabStop i value)
  set { s with mTabStop := tabStop }

/-- `(i & 7) == 0 && i != 0`, for every column. -/
def setDefaultTabStops : EmulatorM Unit :=
  modify fun s => { s with
    mTabStop := (List.range s.mColumns.toNat).map fun i => decide (i % 8 = 0 ∧ i ≠ 0) }

/-! ## Drawing -/

def scroll : EmulatorM Unit := do
  modify fun s => { s with mScrollCounter := iadd s.mScrollCounter 1 }
  let s ← get
  onScreen (TranscriptScreen.scroll s.mTopMargin s.mBottomMargin s.getStyle)

def doLinefeed : EmulatorM Unit := do
  let s ← get
  let newCursorRow := s.mCursorRow + 1
  if newCursorRow ≥ s.mBottomMargin then
    scroll
    setCursorRow (s.mBottomMargin - 1)
  else setCursorRow newCursorRow

variable [Platform]

def blockClear (sx sy w h : Int) : EmulatorM Unit := do
  onScreen (TranscriptScreen.blockSet sx sy w h 32 (← get).getStyle)

def autoWrapEnabled (s : TerminalEmulator) : Bool := s.mDecFlags &&& kWraparoundModeMask ≠ 0

/-- The cursor moves to a new row before a character that does not fit behind it. -/
def wrapCursor (width : Int) : EmulatorM Unit := do
  let s ← get
  if s.mCursorCol = s.mColumns - 1 ∧ (s.mAboutToAutoWrap ∨ width = 2) then
    onScreen (TranscriptScreen.setLineWrap s.mCursorRow)
    modify fun s => { s with mCursorCol := 0, mJustWrapped := true }
    if s.mCursorRow + 1 < s.mBottomMargin then
      modify fun s => { s with mCursorRow := s.mCursorRow + 1 }
    else scroll

/-- Insert mode: move the characters behind the cursor to the right. -/
def moveRight (width : Int) : EmulatorM Unit := do
  let s ← get
  let destCol := s.mCursorCol + width
  if destCol < s.mColumns then
    onScreen (TranscriptScreen.blockCopy s.mCursorCol s.mCursorRow (s.mColumns - destCol) 1
      destCol s.mCursorRow)

/-- Put the character on the screen; a combining character goes along with the character
it modifies. -/
def placeChar (c : Int) (style : Style) (width : Int) : EmulatorM Unit := do
  let s ← get
  if width = 0 then
    if s.mJustWrapped then
      onScreen (TranscriptScreen.set (s.mColumns - s.mLastEmittedCharWidth) (s.mCursorRow - 1)
        c style)
    else
      onScreen (TranscriptScreen.set (s.mCursorCol - s.mLastEmittedCharWidth) s.mCursorRow
        c style)
  else
    onScreen (TranscriptScreen.set s.mCursorCol s.mCursorRow c style)
    modify fun s => { s with mJustWrapped := false }

/-- Move the cursor past a character of the given width. -/
def advanceCursor (autoWrap : Bool) (width : Int) : EmulatorM Unit :=
  modify fun s => { s with
    mAboutToAutoWrap :=
      if autoWrap then decide (s.mCursorCol = s.mColumns - 1) else s.mAboutToAutoWrap
    mCursorCol := min (s.mCursorCol + width) (s.mColumns - 1)
    mLastEmittedCharWidth := if width > 0 then width else s.mLastEmittedCharWidth }

/-- `emit(c, style)` -/
def emitStyled (c : Int) (style : Style) : EmulatorM Unit := do
  let autoWrap := (← get).autoWrapEnabled
  let width := charWidth c
  when autoWrap (wrapCursor width)
  when ((← get).mInsertMode ∧ width ≠ 0) (moveRight width)
  placeChar c style width
  advanceCursor autoWrap width

/-- `emit(int c)` -/
def emit (c : Int) : EmulatorM Unit := do
  emitStyled c (← get).getStyle

def mSpecialGraphicsCharMap (b : Nat) : Int :=
  match b with
  | 0x5f => 0x20 -- Blank
  | 0x62 => 0x2409 -- Tab
  | 0x63 => 0x240C -- Form feed
  | 0x64 => 0x240D -- Carriage return
  | 0x65 => 0x240A -- Line feed
  | 0x69 => 0x240B -- Vertical tab/"lantern"
  | 0x7d => 0x00A3 -- Pound sterling symbol
  | 0x66 => 0x00B0 -- Degree symbol
  | 0x60 => 0x2B25 -- Diamond
  | 0x7e => 0x2022 -- Bullet point
  | 0x79 => 0x2264 -- Less-than-or-equals sign (<=)
  | 0x7c => 0x2260 -- Not equals sign (!=)
  | 0x7a => 0x2265 -- Greater-than-or-equals sign (>=)
  | 0x67 => 0x00B1 -- Plus-or-minus sign (+/-)
  | 0x7b => 0x03C0 -- Lowercase Greek letter pi
  | 0x2e => 0x25BC -- Down arrow
  | 0x2c => 0x25C0 -- Left arrow
  | 0x2b => 0x25B6 -- Right arrow
  | 0x2d => 0x25B2 -- Up arrow
  | 0x68 => 0x23 -- Board of squares, which replaces "New line"
  | 0x61 => 0x2592 -- Checkerboard
  | 0x30 => 0x2588 -- Solid block
  | 0x71 => 0x2500 -- Horizontal line (box drawing)
  | 0x78 => 0x2502 -- Vertical line (box drawing)
  | 0x6d => 0x2514 -- Lower left hand corner (box drawing)
  | 0x6a => 0x2518 -- Lower right hand corner (box drawing)
  | 0x6c => 0x250C -- Upper left hand corner (box drawing)
  | 0x6b => 0x2510 -- Upper right hand corner (box drawing)
  | 0x77 => 0x252C -- T pointing downwards (box drawing)
  | 0x75 => 0x2524 -- T pointing leftwards (box drawing)
  | 0x74 => 0x251C -- T pointing rightwards (box drawing)
  | 0x76 => 0x2534 -- T pointing upwards (box drawing)
  | 0x6e => 0x253C -- Large plus/lines crossing (box drawing)
  | 0x6f => 0x23BA -- Horizontal scanline 1
  | 0x70 => 0x23BB -- Horizontal scanline 3
  | 0x72 => 0x23BC -- Horizontal scanline 7
  | 0x73 => 0x23BD -- Horizontal scanline 9
  | _ => b

/-- `emit(byte b)` -/
def emitByte (b : JByte) : EmulatorM Unit := do
  if (← get).mUseAlternateCharSet then
    -- Every `byte` is below 128; a negative one is no index
    throwIf (b.toInt < 0) (.arrayIndexOutOfBounds .mSpecialGraphicsCharMap)
    emit (mSpecialGraphicsCharMap b.toNat)
  else emit b.toInt

/-- `emit(char[] c)`, a char or a surrogate pair. -/
def emitChars (c : List JChar) : EmulatorM Unit := do
  let c₀ ← checked (arrayGet (.arrayIndexOutOfBounds .chars) c 0)
  if isHighSurrogate c₀ then
    let c₁ ← checked (arrayGet (.arrayIndexOutOfBounds .chars) c 1)
    emit (toCodePoint c₀ c₁)
  else emit c₀.toNat

/-- `emit(c, 0, c.length, style)`, up to a NUL. -/
def emitText (style : Style) : List JChar → EmulatorM Unit
  | [] => pure ⟨⟩
  | c :: rest =>
      if c = 0 then pure ⟨⟩
      else if isHighSurrogate c then
        match rest with
        | [] => throw (.arrayIndexOutOfBounds .chars)
        | cLow :: rest => do
            emitStyled (toCodePoint c cLow) style
            emitText style rest
      else do
        emitStyled c.toNat style
        emitText style rest

end TerminalEmulator

end Kbox.Emulatorview
