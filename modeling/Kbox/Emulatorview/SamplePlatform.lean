import Kbox.Emulatorview.Platform

/-!
# A platform to evaluate the emulator on

The Unicode tables reduced to a few blocks, and a UTF-8 decoder that replaces a
malformed sequence byte by byte.
-/

namespace Kbox.Emulatorview

open Kbox.Framework

namespace SamplePlatform

def getType (c : Int) : CharType :=
  if c < 32 ∨ (127 ≤ c ∧ c < 160) then .control
  else if 0x300 ≤ c ∧ c ≤ 0x36f then .nonSpacingMark
  else if 0x200b ≤ c ∧ c ≤ 0x200f then .format
  else .other

def eastAsianWidth (c : JChar) : EastAsianWidth :=
  if 0x1100 ≤ c.toNat ∧ c.toNat ≤ 0x115f ∨ 0x2e80 ≤ c.toNat ∧ c.toNat ≤ 0xa4cf ∨
      0xac00 ≤ c.toNat ∧ c.toNat ≤ 0xd7a3 ∨ 0xf900 ≤ c.toNat ∧ c.toNat ≤ 0xfaff then .wide
  else if 0xff01 ≤ c.toNat ∧ c.toNat ≤ 0xff60 then .fullWidth
  else .neutral

def isContinuation (b : JByte) : Bool := b &&& 0xc0 = 0x80

/-- The low six bits of the continuation bytes, appended to `n`. -/
def appendBits (n : Nat) (bs : List JByte) : Nat := bs.foldl (fun n b => n * 64 + b.toNat % 64) n

/-- The code point of the sequence in front, and its length. -/
def decodeOne : List JByte → Int × Nat
  | [] => (0xfffd, 0)
  | b :: rest =>
      let sequence (n bits least : Nat) : Int × Nat :=
        let tail := rest.take n
        let c := appendBits bits tail
        if tail.length = n ∧ tail.all isContinuation ∧ least ≤ c ∧ c ≤ 0x10ffff ∧
            ¬ (0xd800 ≤ c ∧ c ≤ 0xdfff) then (c, n + 1)
        else (0xfffd, 1)
      if b.toNat < 0x80 then (b.toNat, 1)
      else if b &&& 0xe0 = 0xc0 then sequence 1 (b.toNat % 32) 0x80
      else if b &&& 0xf0 = 0xe0 then sequence 2 (b.toNat % 16) 0x800
      else if b &&& 0xf8 = 0xf0 then sequence 3 (b.toNat % 8) 0x10000
      else (0xfffd, 1)

/-- One sequence after the other, as long as there is room. -/
def decodeLoop : Nat → List JByte → Nat → List JChar × Nat
  | 0, _, _ => ([], 0)
  | fuel + 1, bytes, room =>
      let (c, n) := decodeOne bytes
      if bytes = [] ∨ room < (toChars c).length then ([], 0)
      else
        let (chars, taken) := decodeLoop fuel (bytes.drop n) (room - (toChars c).length)
        (toChars c ++ chars, n + taken)

end SamplePlatform

@[reducible] def samplePlatform : Platform where
  sdk := 8
  getType := SamplePlatform.getType
  androidEastAsianWidth := SamplePlatform.eastAsianWidth
  decode bytes room := SamplePlatform.decodeLoop bytes.length bytes room
  newString bytes := (SamplePlatform.decodeLoop bytes.length bytes (2 * bytes.length)).1

end Kbox.Emulatorview
