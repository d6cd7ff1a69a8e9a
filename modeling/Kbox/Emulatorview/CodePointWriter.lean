import Kbox.Emulatorview.Platform

/-!
# `TermSession.write(int)`

A code point is put into a buffer of two chars that keeps its second char from call to call, and
both are encoded.  The length is then corrected by one, which is right for the byte of the stale
char, be it a NUL or the `?` of a low surrogate, and wrong for the fourth byte of a pair.
-/

namespace Kbox.Emulatorview

open Kbox.Framework

/-! ## §1  The buffers -/

/-- The UTF-8 encoding of a character. -/
def utf8 (c : Char) : List JByte := (String.utf8EncodeChar c).map UInt8.toBitVec

/-- A char on its own; a surrogate is replaced. -/
def ofUnit (c : JChar) : Char :=
  if isHighSurrogate c ∨ isLowSurrogate c then '?' else Char.ofNat c.toNat

/-- `CharsetEncoder.encode` of UTF-8 at the end of the input, with replacement of what is
malformed: the bytes of the chars, as long as they fit into `room`. -/
def encode : Nat → List JChar → List JByte
  | _, [] => []
  | room, [c] => if room < (utf8 (ofUnit c)).length then [] else utf8 (ofUnit c)
  | room, c :: d :: rest =>
      if isHighSurrogate c ∧ isLowSurrogate d then
        let bytes := utf8 (Char.ofNat (toCodePoint c d).toNat)
        if room < bytes.length then [] else bytes ++ encode (room - bytes.length) rest
      else
        let bytes := utf8 (ofUnit c)
        if room < bytes.length then [] else bytes ++ encode (room - bytes.length) (d :: rest)

structure CodePointWriter where
  mWriteCharBuffer : List JChar
  mWriteByteBuffer : List JByte
  /-- The bytes passed to `mWriteQueue.write`. -/
  enqueued : List JByte
deriving DecidableEq, Repr

namespace CodePointWriter

/-- The buffers as the constructor of the session allocates them. -/
def create : CodePointWriter := ⟨List.replicate 2 0, List.replicate 4 0, []⟩

def write (s : CodePointWriter) (codePoint : Int) : Except Exn CodePointWriter :=
  if codePoint < 0 ∨ codePoint > 0x10ffff then .error .illegalArgument
  else
    let charBuf := splice s.mWriteCharBuffer 0 (toChars codePoint)
    let bytes := encode s.mWriteByteBuffer.length charBuf
    let byteBuf := splice s.mWriteByteBuffer 0 bytes
    .ok ⟨charBuf, byteBuf, s.enqueued ++ byteBuf.take ((bytes.length : Int) - 1).toNat⟩

def writeAll (s : CodePointWriter) : List Int → Except Exn CodePointWriter
  | [] => .ok s
  | codePoint :: rest => do writeAll (← s.write codePoint) rest

/-! ## §2  One call -/

theorem length_utf8 (c : Char) : (utf8 c).length = c.utf8Size := by
  unfold utf8
  rw [List.length_map, String.length_utf8EncodeChar]

/-- A character of the basic plane takes three bytes at most, and any other four. -/
theorem utf8Size_range (c : Char) :
    (c.toNat < 0x10000 → c.utf8Size ≤ 3) ∧ (0x10000 ≤ c.toNat → c.utf8Size = 4) := by
  have hval : c.val.toNat = c.toNat := rfl
  constructor
  · intro hbmp
    have hne : c.utf8Size ≠ 4 := by
      rw [Ne, Char.utf8Size_eq_four_iff, UInt32.lt_iff_toNat_lt, hval]
      simp only [UInt32.toNat_ofNat]
      omega
    have hle := c.utf8Size_le_four
    omega
  · intro hsupplementary
    rw [Char.utf8Size_eq_four_iff, UInt32.lt_iff_toNat_lt, hval]
    simp only [UInt32.toNat_ofNat]
    omega

theorem scalar_range (c : Char) : c.toNat < 0xd800 ∨ 0xdfff < c.toNat ∧ c.toNat < 0x110000 :=
  c.valid

/-- What the session keeps between calls: the second char is the one of the constructor, or the
low surrogate of an earlier pair. -/
structure Stale (s : CodePointWriter) : Prop where
  chars : ∃ c d, s.mWriteCharBuffer = [c, d] ∧ (d = 0 ∨ isLowSurrogate d)
  bytes : s.mWriteByteBuffer.length = 4

theorem stale_create : Stale create := ⟨⟨0, 0, rfl, .inl rfl⟩, rfl⟩

/-- The stale char is one byte. -/
theorem length_utf8_stale {d : JChar} (hd : d = 0 ∨ isLowSurrogate d) :
    (utf8 (ofUnit d)).length = 1 := by
  rcases hd with rfl | hlow
  · rfl
  · unfold ofUnit
    rw [if_pos (.inr hlow)]
    rfl

/-- The units of a character of the basic plane. -/
theorem toChars_bmp {c : Char} (hc : c.toNat < 0x10000) :
    ∃ u : JChar, toChars c.toNat = [u] ∧ isHighSurrogate u = false ∧ ofUnit u = c := by
  have hrange := scalar_range c
  have hu : (toJChar (c.toNat : Int)).toNat = c.toNat := by
    unfold toJChar
    rw [BitVec.toNat_ofInt]
    omega
  have hhigh : isHighSurrogate (toJChar (c.toNat : Int)) = false := by
    unfold isHighSurrogate
    rw [hu, decide_eq_false_iff_not]
    omega
  have hlow : isLowSurrogate (toJChar (c.toNat : Int)) = false := by
    unfold isLowSurrogate
    rw [hu, decide_eq_false_iff_not]
    omega
  refine ⟨toJChar c.toNat, ?_, hhigh, ?_⟩
  · unfold toChars
    rw [if_neg (by omega)]
  · unfold ofUnit
    rw [hhigh, hlow, if_neg (by decide), hu, Char.ofNat_toNat]

/-- The units of any other character. -/
theorem toChars_pair {c : Char} (hc : 0x10000 ≤ c.toNat) :
    ∃ u v : JChar, toChars c.toNat = [u, v] ∧ isHighSurrogate u ∧ isLowSurrogate v ∧
      (toCodePoint u v).toNat = c.toNat := by
  have hrange := scalar_range c
  have hu : (toJChar (0xd800 + ((c.toNat : Int) - 0x10000) / 1024)).toNat =
      0xd800 + (c.toNat - 0x10000) / 1024 := by
    unfold toJChar
    rw [BitVec.toNat_ofInt]
    omega
  have hv : (toJChar (0xdc00 + ((c.toNat : Int) - 0x10000) % 1024)).toNat =
      0xdc00 + (c.toNat - 0x10000) % 1024 := by
    unfold toJChar
    rw [BitVec.toNat_ofInt]
    omega
  refine ⟨_, _, if_pos (by omega), ?_, ?_, ?_⟩
  · unfold isHighSurrogate
    rw [hu, decide_eq_true_iff]
    omega
  · unfold isLowSurrogate
    rw [hv, decide_eq_true_iff]
    omega
  · unfold toCodePoint
    rw [hu, hv]
    push_cast
    omega

/-- What is sent of a character. -/
def sent (c : Char) : List JByte := if c.toNat < 0x10000 then utf8 c else (utf8 c).take 3

theorem write_ok {s : CodePointWriter} (hs : Stale s) (c : Char) :
    ∃ t, s.write c.toNat = .ok t ∧ Stale t ∧ t.enqueued = s.enqueued ++ sent c := by
  obtain ⟨⟨x, d, hchars, hd⟩, hbytes⟩ := hs
  have hrange := scalar_range c
  obtain ⟨hthree, hfour⟩ := utf8Size_range c
  have hd' := length_utf8_stale hd
  unfold write
  rw [if_neg (by omega)]
  refine ⟨_, rfl, ?_⟩
  by_cases hc : c.toNat < 0x10000
  · obtain ⟨u, hu, hhigh, hunit⟩ := toChars_bmp hc
    have hsplice : splice s.mWriteCharBuffer 0 (toChars c.toNat) = [u, d] := by
      rw [hchars, hu]
      rfl
    have hsize := hthree hc
    have hencode : encode 4 [u, d] = utf8 c ++ utf8 (ofUnit d) := by
      rw [encode, if_neg (by rw [hhigh]; simp), hunit]
      simp only [length_utf8 c]
      rw [if_neg (by omega), encode, if_neg (by omega)]
    have hlength : (utf8 c ++ utf8 (ofUnit d)).length = c.utf8Size + 1 := by
      rw [List.length_append, length_utf8, hd']
    have hcount : (((c.utf8Size + 1 : Nat) : Int) - 1).toNat = (utf8 c).length := by
      rw [length_utf8]
      omega
    simp only [hsplice, hbytes, hencode, hlength, hcount]
    refine ⟨⟨⟨u, d, rfl, hd⟩, ?_⟩, ?_⟩
    · rw [length_splice (by omega), hbytes]
    · unfold splice sent
      rw [List.take_zero, List.nil_append, List.append_assoc, List.take_left, if_pos hc]
  · obtain ⟨u, v, huv, hhigh, hlow, hpoint⟩ := toChars_pair (show 0x10000 ≤ c.toNat by omega)
    have hsplice : splice s.mWriteCharBuffer 0 (toChars c.toNat) = [u, v] := by
      rw [hchars, huv]
      rfl
    have hsize := hfour (by omega)
    have hencode : encode 4 [u, v] = utf8 c := by
      rw [encode, if_pos ⟨hhigh, hlow⟩, hpoint, Char.ofNat_toNat]
      simp only [length_utf8 c, hsize]
      rw [if_neg (by decide), encode, List.append_nil]
    have hlength : (utf8 c).length = 4 := by rw [length_utf8, hsize]
    have hcount : (((4 : Nat) : Int) - 1).toNat = 3 := rfl
    simp only [hsplice, hbytes, hencode, hlength, hcount]
    refine ⟨⟨⟨u, v, rfl, .inr hlow⟩, ?_⟩, ?_⟩
    · rw [length_splice (by omega), hbytes]
    · unfold splice sent
      rw [List.take_zero, List.nil_append, List.take_append_of_le_length (by omega), if_neg hc]

/-! ## §3  Any sequence of calls -/

theorem writeAll_ok {s : CodePointWriter} (hs : Stale s) (cs : List Char) :
    ∃ t, s.writeAll (cs.map fun c => (c.toNat : Int)) = .ok t ∧
      t.enqueued = s.enqueued ++ cs.flatMap sent := by
  induction cs generalizing s with
  | nil => exact ⟨s, rfl, (List.append_nil _).symm⟩
  | cons c cs ih =>
      obtain ⟨t, hwrite, ht, henqueued⟩ := write_ok hs c
      obtain ⟨u, hrest, hu⟩ := ih ht
      refine ⟨u, ?_, ?_⟩
      · rw [List.map_cons, writeAll, hwrite]
        exact hrest
      · rw [hu, henqueued, List.flatMap_cons, List.append_assoc]

/-- A pair loses a byte, and nothing makes up for it. -/
theorem length_flatMap_sent (cs : List Char) :
    (cs.flatMap sent).length ≤ (cs.flatMap utf8).length ∧
      ((cs.flatMap sent).length = (cs.flatMap utf8).length → ∀ c ∈ cs, c.toNat < 0x10000) := by
  induction cs with
  | nil => exact ⟨Nat.le_refl _, fun _ c hc => absurd hc List.not_mem_nil⟩
  | cons c cs ih =>
      obtain ⟨hle, hall⟩ := ih
      have hsize := (utf8Size_range c).2
      rw [List.flatMap_cons, List.flatMap_cons, List.length_append, List.length_append,
        List.forall_mem_cons]
      unfold sent at hle hall ⊢
      by_cases hc : c.toNat < 0x10000
      · rw [if_pos hc]
        exact ⟨by omega, fun heq => ⟨hc, hall (by omega)⟩⟩
      · rw [if_neg hc, List.length_take, length_utf8, hsize (by omega)]
        exact ⟨by omega, fun heq => absurd heq (by omega)⟩

/-- **Code points** are sent intact if and only if all of them are in the basic plane. -/
theorem code_points_sent_iff (cs : List Char) :
    ∃ s, create.writeAll (cs.map fun c => (c.toNat : Int)) = .ok s ∧
      (s.enqueued = cs.flatMap utf8 ↔ ∀ c ∈ cs, c.toNat < 0x10000) := by
  obtain ⟨s, hs, henqueued⟩ := writeAll_ok stale_create cs
  refine ⟨s, hs, ?_⟩
  rw [henqueued, show create.enqueued = [] from rfl, List.nil_append]
  constructor
  · intro heq
    exact (length_flatMap_sent cs).2 (congrArg List.length heq)
  · intro hall
    refine List.flatMap_congr fun c hc => ?_
    unfold sent
    rw [if_pos (hall c hc)]

/-- Three bytes of the four of U+1F600. -/
theorem write_loses_byte :
    ∃ s, create.writeAll [0x1f600] = .ok s ∧
      s.enqueued = [0xf0, 0x9f, 0x98] ∧ utf8 (Char.ofNat 0x1f600) = [0xf0, 0x9f, 0x98, 0x80] := by
  refine ⟨⟨[0xd83d, 0xde00], [0xf0, 0x9f, 0x98, 0x80], [0xf0, 0x9f, 0x98]⟩, ?_, rfl, ?_⟩ <;>
    decide +kernel

end CodePointWriter

end Kbox.Emulatorview
