import Kbox.Exception
import Kbox.Framework.JavaInt
import Kbox.Framework.Arrays
import Kbox.Framework.Exceptions

/-!
# `TextStyle` and `StyleRow`

A style is one `int`: effect bits, foreground and background colour index in
six, nine and nine bits.  `StyleRow` keeps the styles of a row as bytes, three
to a cell, once a cell differs from the style the row was created with.
-/

namespace Kbox.Emulatorview

open Kbox.Framework

/-- An encoded style, as an `int`. -/
abbrev Style : Type := BitVec 32

namespace TextStyle

def fxNormal : BitVec 32 := 0
def fxBold : BitVec 32 := 1
def fxItalic : BitVec 32 := 1 <<< 1
def fxUnderline : BitVec 32 := 1 <<< 2
def fxBlink : BitVec 32 := 1 <<< 3
def fxInverse : BitVec 32 := 1 <<< 4
def fxInvisible : BitVec 32 := 1 <<< 5

/-- VT100 text foreground color -/
def ciForeground : Int := 256
/-- VT100 text background color -/
def ciBackground : Int := 257
/-- VT100 text cursor color -/
def ciCursor : Int := 258

def ciColorLength : Int := ciCursor + 1

def encode (foreColor backColor : Int) (effect : BitVec 32) : Style :=
  ((effect &&& 0x3f) <<< 18) ||| ((BitVec.ofInt 32 foreColor &&& 0x1ff) <<< 9) |||
    (BitVec.ofInt 32 backColor &&& 0x1ff)

def decodeForeColor (encodedColor : Style) : Int :=
  ((encodedColor.sshiftRight 9) &&& 0x1ff).toInt

def decodeBackColor (encodedColor : Style) : Int := (encodedColor &&& 0x1ff).toInt

def decodeEffect (encodedColor : Style) : BitVec 32 :=
  (encodedColor.sshiftRight 18) &&& 0x3f

def kNormalTextStyle : Style := encode ciForeground ciBackground fxNormal

end TextStyle

/-- Three bytes to a column, once there is data.  `3 * columns` is exact, as it is in an `int` for
up to 715827882 columns; the array of a row that is wider could not be allocated. -/
structure StyleRow where
  mStyle : Style
  mColumns : Nat
  mData : Option (List JByte)
deriving DecidableEq, Repr

/-- A method of a style row. -/
abbrev StyleM (α : Type) : Type := EStateM Exn StyleRow α

namespace StyleRow

/-- `new StyleRow(style, columns)` -/
def create (style : Style) (columns : Nat) : StyleRow := ⟨style, columns, none⟩

/-- The three bytes of a style. -/
def styleBytes (style : Style) : List JByte :=
  [style.setWidth 8, (style.sshiftRight 8).setWidth 8, (style.sshiftRight 16).setWidth 8]

/-- `mData` after `allocate`, or as it is. -/
def data (r : StyleRow) : List JByte :=
  r.mData.getD ((List.replicate r.mColumns (styleBytes r.mStyle)).flatten)

def ensureData : StyleM Unit :=
  modify fun r => { r with mData := some r.data }

/-- `setStyle`, on allocated data. -/
def setStyle (column : Int) (value : Style) : StyleM Unit := do
  let r ← get
  let data ← checked (arraycopy (.arrayIndexOutOfBounds .mColor) (styleBytes value) 0
    r.data (3 * column) 3)
  MonadStateOf.set { r with mData := some data }

def set (column : Int) (style : Style) : StyleM Unit := do
  let r ← get
  if style = r.mStyle ∧ r.mData = none then return
  ensureData
  setStyle column style

def getStyle (data : List JByte) (column : Int) : Except Exn Style := do
  let b₀ ← arrayGet (.arrayIndexOutOfBounds .mColor) data (3 * column)
  let b₁ ← arrayGet (.arrayIndexOutOfBounds .mColor) data (3 * column + 1)
  let b₂ ← arrayGet (.arrayIndexOutOfBounds .mColor) data (3 * column + 2)
  return b₀.setWidth 32 ||| (b₁.setWidth 32 <<< 8) ||| (b₂.setWidth 32 <<< 16)

def get (r : StyleRow) (column : Int) : Except Exn Style :=
  match r.mData with
  | none => .ok r.mStyle
  | some data => getStyle data column

/-- `copy(start, dst, offset, len)` into another row. -/
def copyTo (r dst : StyleRow) (start offset len : Int) : Except Exn (StyleRow × StyleRow) :=
  if r.mData = none ∧ dst.mData = none ∧ start = 0 ∧ offset = 0 ∧ len = r.mColumns then
    .ok (r, { dst with mStyle := r.mStyle })
  else do
    let data ← arraycopy (.arrayIndexOutOfBounds .mColor) r.data (3 * start) dst.data
      (3 * offset) (3 * len)
    return ({ r with mData := some r.data }, { dst with mData := some data })

end StyleRow

end Kbox.Emulatorview
