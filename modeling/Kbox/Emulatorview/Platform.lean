import Kbox.Exception
import Kbox.Framework.JavaInt
import Kbox.Framework.Arrays

/-!
# Characters and their widths

What the emulator asks of the platform is a parameter: the Unicode tables
behind `Character.getType` and `AndroidCharacter.getEastAsianWidth`, and the
UTF-8 decoders.  The UTF-16 functions of `Character` are spelled out, and so is
`UnicodeTranscript.charWidth`, which everything else measures text with.
-/

namespace Kbox.Emulatorview

open Kbox.Framework

/-- The results of `Character.getType` that `charWidth` tells apart. -/
inductive CharType where
  | control | format | nonSpacingMark | enclosingMark | other
deriving DecidableEq, Repr

inductive EastAsianWidth where
  | neutral | ambiguous | halfWidth | fullWidth | narrow | wide
deriving DecidableEq, Repr

class Platform where
  /-- `AndroidCompat.SDK` -/
  sdk : Nat
  getType : Int → CharType
  androidEastAsianWidth : JChar → EastAsianWidth
  /-- `CharsetDecoder.decode` of UTF-8 with replacement: the chars that fit into so much
  room, and how many of the bytes they come from. -/
  decode : List JByte → Nat → List JChar × Nat
  /-- `new String(bytes, "UTF-8")` -/
  newString : List JByte → List JChar

variable [Platform]

/-- `AndroidCharacterCompat.getEastAsianWidth` -/
def getEastAsianWidth (c : JChar) : EastAsianWidth :=
  if Platform.sdk ≥ 8 then Platform.androidEastAsianWidth c else .narrow

/-! ## UTF-16 -/

def isHighSurrogate (c : JChar) : Bool := 0xd800 ≤ c.toNat ∧ c.toNat ≤ 0xdbff

def isLowSurrogate (c : JChar) : Bool := 0xdc00 ≤ c.toNat ∧ c.toNat ≤ 0xdfff

def toCodePoint (high low : JChar) : Int :=
  ((high.toNat : Int) - 0xd800) * 1024 + ((low.toNat : Int) - 0xdc00) + 0x10000

def charCount (codePoint : Int) : Int := if codePoint ≥ 0x10000 then 2 else 1

/-- `(char) codePoint` -/
def toJChar (codePoint : Int) : JChar := BitVec.ofInt 16 codePoint

/-- `Character.toChars(codePoint)`, for a code point that has one. -/
def toChars (codePoint : Int) : List JChar :=
  if codePoint ≥ 0x10000 then
    [toJChar (0xd800 + (codePoint - 0x10000) / 1024),
      toJChar (0xdc00 + (codePoint - 0x10000) % 1024)]
  else [toJChar codePoint]

/-! ## Widths -/

def charWidth (codePoint : Int) : Int :=
  -- Early out for ASCII printable characters
  if codePoint > 31 ∧ codePoint < 127 then 1
  -- ESC marks the cursor across resizes, and has to have a width
  else if codePoint = 27 then 1
  else match Platform.getType codePoint with
    | .control | .format | .nonSpacingMark | .enclosingMark => 0
    | .other =>
        if charCount codePoint = 1 then
          match getEastAsianWidth (toJChar codePoint) with
          | .fullWidth | .wide => 2
          | _ => 1
        else if (codePoint / 65536) % 16 = 2 ∨ (codePoint / 65536) % 16 = 3 then 2
        else 1

/-- `charWidth(chars, index)` -/
def charWidthAt (oob : Exn) (chars : List JChar) (index : Int) : Except Exn Int := do
  let c ← arrayGet oob chars index
  if isHighSurrogate c then
    let cLow ← arrayGet oob chars (index + 1)
    return charWidth (toCodePoint c cLow)
  else
    return charWidth c.toNat

/-- `UnicodeTranscript.isBasicChar` -/
def isBasicChar (codePoint : Int) : Bool := charWidth codePoint = 1 ∧ charCount codePoint = 1

theorem charWidth_cases (codePoint : Int) :
    charWidth codePoint = 0 ∨ charWidth codePoint = 1 ∨ charWidth codePoint = 2 := by
  unfold charWidth
  by_cases hascii : codePoint > 31 ∧ codePoint < 127
  · rw [if_pos hascii]
    exact .inr (.inl rfl)
  by_cases hesc : codePoint = 27
  · rw [if_neg hascii, if_pos hesc]
    exact .inr (.inl rfl)
  rw [if_neg hascii, if_neg hesc]
  cases Platform.getType codePoint with
  | control => exact .inl rfl
  | format => exact .inl rfl
  | nonSpacingMark => exact .inl rfl
  | enclosingMark => exact .inl rfl
  | other =>
      by_cases hcount : charCount codePoint = 1
      · simp only [if_pos hcount]
        cases getEastAsianWidth (toJChar codePoint) <;> simp
      · simp only [if_neg hcount]
        split <;> simp

theorem charWidth_ascii {codePoint : Int} (h : 32 ≤ codePoint ∧ codePoint ≤ 126) :
    charWidth codePoint = 1 := by
  unfold charWidth
  rw [if_pos (by omega)]

end Kbox.Emulatorview
